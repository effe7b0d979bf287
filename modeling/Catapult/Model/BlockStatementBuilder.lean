import Catapult.Io.BlockStatement
import Catapult.Lib.Fuel

/-!
# The builder of block statements

Receipts and resolutions are added under the active source. Popping the source copies what was added under primary ids
up to the previous one. A copy loop has a 32 bit index, so that a pop is a computation with fuel.
-/

namespace Catapult.Model
open Io (ReceiptSource UnresolvedAddress UnresolvedMosaicId StatementError Receipt BlockStatementData addReceipt
  addResolution emplace)

/-- A receipt has its header and the size that it says. -/
abbrev SizedReceipt := { receipt : Receipt // ofLeBytes (receipt.take 4) = receipt.length ∧ 8 ≤ receipt.length }

/-- `find` and, when there is no statement of the key, `emplace` of a new one. The map is a list in the order of the
keys. -/
def addTo {κ σ : Type} [LinearOrder κ] (key : κ) (add : σ → Except StatementError σ) (empty : σ) :
    List (κ × σ) → Except StatementError (List (κ × σ))
  | [] => return [(key, ← add empty)]
  | (k, s) :: statements => do
    if key < k then return (key, ← add empty) :: (k, s) :: statements
    else if k < key then return (k, s) :: (← addTo key add empty statements)
    else return (k, ← add s) :: statements

structure BlockStatementBuilder where
  activeSource : ReceiptSource
  statement : BlockStatementData

abbrev Copy := ExceptT StatementError Option

def copyTransactionStatements (fuel : Nat) (maxSourcePrimaryId : UInt32) :
    List (ReceiptSource × List Receipt) → List (ReceiptSource × List Receipt) →
      Copy (List (ReceiptSource × List Receipt))
  | [], destination => return destination
  | (key, receipts) :: source, destination =>
    if maxSourcePrimaryId < key.primaryId then copyTransactionStatements fuel maxSourcePrimaryId source destination
    else do
      let statement ← indexLoop (fun statement receipt => .ok (addReceipt receipt statement)) receipts fuel 0 []
      copyTransactionStatements fuel maxSourcePrimaryId source (emplace key statement destination)

def copyEntry {ρ : Type} [DecidableEq ρ] (maxSourcePrimaryId : UInt32) (statement : List (ReceiptSource × ρ))
    (entry : ReceiptSource × ρ) : Except StatementError (List (ReceiptSource × ρ)) :=
  if maxSourcePrimaryId < entry.1.primaryId then return statement
  else addResolution entry.1 entry.2 statement

def copyResolutionStatements {κ ρ : Type} [LinearOrder κ] [DecidableEq ρ] (fuel : Nat) (maxSourcePrimaryId : UInt32) :
    List (κ × List (ReceiptSource × ρ)) → List (κ × List (ReceiptSource × ρ)) →
      Copy (List (κ × List (ReceiptSource × ρ)))
  | [], destination => return destination
  | (key, entries) :: source, destination => do
    let statement ← indexLoop (copyEntry maxSourcePrimaryId) entries fuel 0 []
    if statement.isEmpty then copyResolutionStatements fuel maxSourcePrimaryId source destination
    else copyResolutionStatements fuel maxSourcePrimaryId source (emplace key statement destination)

/-- The destination is empty. -/
def deepCopyTo (fuel : Nat) (source : BlockStatementData) (maxSourcePrimaryId : UInt32) : Copy BlockStatementData := do
  let transactionStatements ← copyTransactionStatements fuel maxSourcePrimaryId source.transactionStatements []
  let addressResolutionStatements ←
    copyResolutionStatements fuel maxSourcePrimaryId source.addressResolutionStatements []
  let mosaicResolutionStatements ←
    copyResolutionStatements fuel maxSourcePrimaryId source.mosaicResolutionStatements []
  return ⟨transactionStatements, addressResolutionStatements, mosaicResolutionStatements⟩

inductive Call where
  | setSource (source : ReceiptSource)
  | addReceipt (receipt : SizedReceipt)
  | addAddressResolution (unresolved : UnresolvedAddress) (resolved : FixedBytes 24)
  | addMosaicResolution (unresolved : UnresolvedMosaicId) (resolved : UInt64)

namespace BlockStatementBuilder

def init : BlockStatementBuilder := ⟨⟨0, 0⟩, {}⟩

variable (builder : BlockStatementBuilder)

def popSource (fuel : Nat) : Copy BlockStatementBuilder :=
  if builder.activeSource.primaryId = 0 then return builder
  else do
    let activeSource : ReceiptSource := ⟨builder.activeSource.primaryId - 1, 0⟩
    return ⟨activeSource, ← deepCopyTo fuel builder.statement activeSource.primaryId⟩

def apply : Call → Except StatementError BlockStatementBuilder
  | .setSource source => return { builder with activeSource := source }
  | .addReceipt receipt => do
    let transactionStatements ← addTo builder.activeSource (fun receipts => .ok (addReceipt receipt.1 receipts)) []
      builder.statement.transactionStatements
    return { builder with statement := { builder.statement with transactionStatements } }
  | .addAddressResolution unresolved resolved => do
    let addressResolutionStatements ← addTo unresolved (addResolution builder.activeSource resolved) []
      builder.statement.addressResolutionStatements
    return { builder with statement := { builder.statement with addressResolutionStatements } }
  | .addMosaicResolution unresolved resolved => do
    let mosaicResolutionStatements ← addTo unresolved (addResolution builder.activeSource resolved) []
      builder.statement.mosaicResolutionStatements
    return { builder with statement := { builder.statement with mosaicResolutionStatements } }

/-- A call that throws leaves the builder as it is, and the caller can go on. -/
def run (calls : List Call) : BlockStatementBuilder :=
  calls.foldl (fun builder call =>
    match builder.apply call with
    | .ok builder' => builder'
    | .error _ => builder) builder

end BlockStatementBuilder

/-- `WriteBlockStatement`, which throws when a number of statements, receipts or entries has more than 32 bits. -/
def writeBlockStatement (statement : BlockStatementData) : Option (List UInt8) :=
  if statement.transactionStatements.length < 2 ^ 32 ∧
      (∀ s ∈ statement.transactionStatements, s.2.length < 2 ^ 32) ∧
      statement.addressResolutionStatements.length < 2 ^ 32 ∧
      (∀ s ∈ statement.addressResolutionStatements, s.2.length < 2 ^ 32) ∧
      statement.mosaicResolutionStatements.length < 2 ^ 32 ∧
      ∀ s ∈ statement.mosaicResolutionStatements, s.2.length < 2 ^ 32 then
    some (Io.blockStatementBytes statement)
  else none

end Catapult.Model
