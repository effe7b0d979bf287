import Catapult.Lib.Reader
import Mathlib.Data.List.Chain
import Mathlib.Data.Prod.Lex

/-!
# Block statements and their bytes (`BlockStatementSerializer`)

A block statement has three maps of statements. They are written in the order of their keys, each with the number of
its receipts or entries in front of them. What is read is added to a statement again: receipts in the order of their
types, resolutions only when their sources do not decrease and they change the resolved value. A statement that was
built in this way is read back as it was written.
-/

namespace Catapult.Io
open Reader

structure ReceiptSource where
  primaryId : UInt32
  secondaryId : UInt32

instance : LinearOrder ReceiptSource :=
  LinearOrder.lift' (fun s => toLex (s.primaryId.toNat, s.secondaryId.toNat)) fun ⟨p, s⟩ ⟨p', s'⟩ heq => by
    simp only [EmbeddingLike.apply_eq_iff_eq, Prod.mk.injEq] at heq
    rw [ReceiptSource.mk.injEq]
    exact ⟨UInt32.toNat_inj.1 heq.1, UInt32.toNat_inj.1 heq.2⟩

structure UnresolvedAddress where
  bytes : FixedBytes 24

/-- By the first byte that is different. -/
instance : LinearOrder UnresolvedAddress :=
  LinearOrder.lift' (fun a => ofLeBytes a.bytes.1.reverse) fun ⟨a⟩ ⟨b⟩ heq => by
    have ha := leBytes_ofLeBytes a.1.reverse
    have hb := leBytes_ofLeBytes b.1.reverse
    rw [List.length_reverse, a.2] at ha
    rw [List.length_reverse, b.2] at hb
    rw [UnresolvedAddress.mk.injEq]
    refine Subtype.ext (List.reverse_injective ?_)
    rw [← ha, ← hb]
    exact congrArg (leBytes 24) heq

structure UnresolvedMosaicId where
  value : UInt64

instance : LinearOrder UnresolvedMosaicId :=
  LinearOrder.lift' (fun id => id.value.toNat) fun ⟨a⟩ ⟨b⟩ heq => by
    rw [UnresolvedMosaicId.mk.injEq]
    exact UInt64.toNat_inj.1 heq

inductive StatementError where
  | endOfStream
  /-- "detected out of order resolution - last (…) next (…)" -/
  | outOfOrder (last next : ReceiptSource)

abbrev Receipt := List UInt8

def receiptType (receipt : Receipt) : Nat := ofLeBytes ((receipt.drop 6).take 2)

/-- Before the first receipt with a greater type. -/
def addReceipt (receipt : Receipt) : List Receipt → List Receipt
  | [] => [receipt]
  | other :: receipts =>
    if receiptType receipt < receiptType other then receipt :: other :: receipts
    else other :: addReceipt receipt receipts

/-- A value that is resolved like at the last source is not added. -/
def addResolution {ρ : Type} [DecidableEq ρ] (source : ReceiptSource) (resolvedValue : ρ)
    (entries : List (ReceiptSource × ρ)) : Except StatementError (List (ReceiptSource × ρ)) :=
  match entries.getLast? with
  | none => return entries ++ [(source, resolvedValue)]
  | some last =>
    if source < last.1 then throw (.outOfOrder last.1 source)
    else if resolvedValue = last.2 then return entries
    else return entries ++ [(source, resolvedValue)]

/-- `emplace` of a map that is a list in the order of the keys: a key that is there keeps its value. -/
def emplace {κ σ : Type} [LinearOrder κ] (key : κ) (statement : σ) : List (κ × σ) → List (κ × σ)
  | [] => [(key, statement)]
  | (k, s) :: statements =>
    if key < k then (key, statement) :: (k, s) :: statements
    else if k < key then (k, s) :: emplace key statement statements
    else (k, s) :: statements

structure BlockStatementData where
  transactionStatements : List (ReceiptSource × List Receipt) := []
  addressResolutionStatements : List (UnresolvedAddress × List (ReceiptSource × FixedBytes 24)) := []
  mosaicResolutionStatements : List (UnresolvedMosaicId × List (ReceiptSource × UInt64)) := []

section Counted
variable {α : Type}

def countedBytes (write : α → List UInt8) (values : List α) : List UInt8 :=
  leBytes 4 values.length ++ values.flatMap write

def readCounted (body : List α → Reader StatementError (List α)) : Reader StatementError (List α) := do
  let count ← nat .endOfStream 4
  loop32 .endOfStream body count []

end Counted

def sourceBytes (source : ReceiptSource) : List UInt8 :=
  leBytes 4 source.primaryId.toNat ++ leBytes 4 source.secondaryId.toNat

def readSource : Reader StatementError ReceiptSource := do
  let primaryId ← uint32 .endOfStream
  let secondaryId ← uint32 .endOfStream
  return ⟨primaryId, secondaryId⟩

def transactionStatementBytes (statement : ReceiptSource × List Receipt) : List UInt8 :=
  sourceBytes statement.1 ++ countedBytes id statement.2

def readTransactionStatement : Reader StatementError (ReceiptSource × List Receipt) := do
  let key ← readSource
  let receipts ← readCounted fun receipts => do
    let receipt ← sizePrefixed .endOfStream
    return addReceipt receipt receipts
  return (key, receipts)

section Resolution
variable {κ ρ : Type} [DecidableEq ρ]

def resolutionStatementBytes (keyBytes : κ → List UInt8) (valueBytes : ρ → List UInt8)
    (statement : κ × List (ReceiptSource × ρ)) : List UInt8 :=
  keyBytes statement.1 ++ countedBytes (fun entry => sourceBytes entry.1 ++ valueBytes entry.2) statement.2

def readResolutionStatement (readKey : Reader StatementError κ) (readValue : Reader StatementError ρ) :
    Reader StatementError (κ × List (ReceiptSource × ρ)) := do
  let key ← readKey
  let entries ← readCounted fun entries => do
    let source ← readSource
    let resolvedValue ← readValue
    lift id (addResolution source resolvedValue entries)
  return (key, entries)

end Resolution

def addressResolutionStatementBytes :
    UnresolvedAddress × List (ReceiptSource × FixedBytes 24) → List UInt8 :=
  resolutionStatementBytes (fun key => key.bytes.1) Subtype.val

def mosaicResolutionStatementBytes : UnresolvedMosaicId × List (ReceiptSource × UInt64) → List UInt8 :=
  resolutionStatementBytes (fun key => leBytes 8 key.value.toNat) fun value => leBytes 8 value.toNat

def readAddressResolutionStatement :
    Reader StatementError (UnresolvedAddress × List (ReceiptSource × FixedBytes 24)) :=
  readResolutionStatement (do let key ← bytes .endOfStream 24; return ⟨key⟩) (bytes .endOfStream 24)

def readMosaicResolutionStatement : Reader StatementError (UnresolvedMosaicId × List (ReceiptSource × UInt64)) :=
  readResolutionStatement (do let key ← uint64 .endOfStream; return ⟨key⟩) (uint64 .endOfStream)

def readStatements {κ σ : Type} [LinearOrder κ] (readStatement : Reader StatementError (κ × σ)) :
    Reader StatementError (List (κ × σ)) :=
  readCounted fun statements => do
    let statement ← readStatement
    return emplace statement.1 statement.2 statements

/-- `WriteBlockStatement`. -/
def blockStatementBytes (statement : BlockStatementData) : List UInt8 :=
  countedBytes transactionStatementBytes statement.transactionStatements ++
    (countedBytes addressResolutionStatementBytes statement.addressResolutionStatements ++
      countedBytes mosaicResolutionStatementBytes statement.mosaicResolutionStatements)

def readBlockStatement : Reader StatementError BlockStatementData := do
  let transactionStatements ← readStatements readTransactionStatement
  let addressResolutionStatements ← readStatements readAddressResolutionStatement
  let mosaicResolutionStatements ← readStatements readMosaicResolutionStatement
  return ⟨transactionStatements, addressResolutionStatements, mosaicResolutionStatements⟩

structure ReceiptsAdded (receipts : List Receipt) : Prop where
  length_lt : receipts.length < 2 ^ 32
  size_eq : ∀ receipt ∈ receipts, ofLeBytes (receipt.take 4) = receipt.length ∧ 8 ≤ receipt.length
  ordered : receipts.Pairwise fun receipt other => receiptType receipt ≤ receiptType other

structure ResolutionsAdded {ρ : Type} (entries : List (ReceiptSource × ρ)) : Prop where
  length_lt : entries.length < 2 ^ 32
  ordered : entries.IsChain fun entry next => entry.1 ≤ next.1 ∧ next.2 ≠ entry.2

structure StatementsAdded {κ σ : Type} [LinearOrder κ] (added : σ → Prop) (statements : List (κ × σ)) : Prop where
  length_lt : statements.length < 2 ^ 32
  ordered : statements.Pairwise fun statement other => statement.1 < other.1
  added : ∀ statement ∈ statements, added statement.2

structure BlockStatement extends BlockStatementData where
  transactionStatements_added : StatementsAdded ReceiptsAdded transactionStatements
  addressResolutionStatements_added : StatementsAdded ResolutionsAdded addressResolutionStatements
  mosaicResolutionStatements_added : StatementsAdded ResolutionsAdded mosaicResolutionStatements

theorem addReceipt_last {receipt : Receipt} {receipts : List Receipt}
    (hlast : ∀ other ∈ receipts, receiptType other ≤ receiptType receipt) :
    addReceipt receipt receipts = receipts ++ [receipt] := by
  induction receipts with
  | nil => rfl
  | cons other receipts ih =>
    have hother := hlast other List.mem_cons_self
    rw [addReceipt, if_neg (by omega), ih fun r hr => hlast r (List.mem_cons_of_mem other hr)]
    rfl

theorem emplace_last {κ σ : Type} [LinearOrder κ] {key : κ} {statement : σ} {statements : List (κ × σ)}
    (hlast : ∀ other ∈ statements, other.1 < key) :
    emplace key statement statements = statements ++ [(key, statement)] := by
  induction statements with
  | nil => rfl
  | cons other statements ih =>
    obtain ⟨k, s⟩ := other
    have hlt : k < key := hlast (k, s) List.mem_cons_self
    rw [emplace, if_neg (not_lt_of_gt hlt), if_pos hlt, ih fun o ho => hlast o (List.mem_cons_of_mem (k, s) ho)]
    rfl

theorem addResolution_last {ρ : Type} [DecidableEq ρ] {entry : ReceiptSource × ρ} {entries : List (ReceiptSource × ρ)}
    (hlast : ∀ last ∈ entries.getLast?, last.1 ≤ entry.1 ∧ entry.2 ≠ last.2) :
    addResolution entry.1 entry.2 entries = .ok (entries ++ [entry]) := by
  rw [addResolution]
  cases hentries : entries.getLast? with
  | none => rfl
  | some last =>
    obtain ⟨hle, hne⟩ := hlast last hentries
    simp only [if_neg (not_lt_of_ge hle), if_neg hne]
    rfl

theorem reads_counted {α : Type} {body : List α → Reader StatementError (List α)} {write : α → List UInt8}
    {values : List α} (hlength : values.length < 2 ^ 32)
    (hread : ∀ pre a post, values = pre ++ a :: post → Reads (body pre) (write a) (pre ++ [a]))
    (hne : ∀ a ∈ values, write a ≠ []) : Reads (readCounted body) (countedBytes write values) values := by
  have hfold : ReadsFold body [] (values.map write) ([] ++ values) :=
    .ofList (fun mid a post hvalues => by simpa using hread mid a post hvalues) hne
  have hloop := @ReadsFold.loop32 _ _ StatementError.endOfStream _ _ _ _ hfold (by rwa [List.length_map])
  rw [List.length_map, ← List.flatMap_def, List.nil_append] at hloop
  exact (Reads.nat (by omega)).bind hloop

theorem reads_source (source : ReceiptSource) : Reads readSource (sourceBytes source) source :=
  (Reads.uint32 source.primaryId).bind (Reads.uint32 source.secondaryId).bind_pure

theorem sourceBytes_append_ne (source : ReceiptSource) (rest : List UInt8) : sourceBytes source ++ rest ≠ [] := by
  intro hnil
  have hlength := congrArg List.length hnil
  simp [sourceBytes] at hlength

theorem reads_transactionStatement {statement : ReceiptSource × List Receipt} (hadded : ReceiptsAdded statement.2) :
    Reads readTransactionStatement (transactionStatementBytes statement) statement := by
  have hreceipts : Reads (readCounted fun receipts => do
      let receipt ← sizePrefixed .endOfStream
      return addReceipt receipt receipts) (countedBytes id statement.2) statement.2 := by
    refine reads_counted hadded.length_lt (fun pre receipt post hsplit => ?_) fun receipt hmem hnil => ?_
    · obtain ⟨hsize, hle⟩ := hadded.size_eq receipt (by simp [hsplit])
      have hordered := hadded.ordered
      rw [hsplit, List.pairwise_append] at hordered
      have hlast : ∀ other ∈ pre, receiptType other ≤ receiptType receipt := fun other hother =>
        hordered.2.2 other hother receipt List.mem_cons_self
      rw [← addReceipt_last hlast]
      exact (Reads.sizePrefixed hsize (by omega)).bind_pure
    · have hle := (hadded.size_eq receipt hmem).2
      rw [id_eq] at hnil
      rw [hnil] at hle
      exact absurd hle (by decide)
  exact (reads_source statement.1).bind hreceipts.bind_pure

theorem reads_resolutionStatement {κ ρ : Type} [DecidableEq ρ] {readKey : Reader StatementError κ}
    {readValue : Reader StatementError ρ} {keyBytes : κ → List UInt8} {valueBytes : ρ → List UInt8}
    {statement : κ × List (ReceiptSource × ρ)} (hkey : Reads readKey (keyBytes statement.1) statement.1)
    (hvalue : ∀ value, Reads readValue (valueBytes value) value) (hadded : ResolutionsAdded statement.2) :
    Reads (readResolutionStatement readKey readValue) (resolutionStatementBytes keyBytes valueBytes statement)
      statement := by
  have hentries : Reads (readCounted fun entries => do
      let source ← readSource
      let resolvedValue ← readValue
      lift id (addResolution source resolvedValue entries))
      (countedBytes (fun entry => sourceBytes entry.1 ++ valueBytes entry.2) statement.2) statement.2 := by
    refine reads_counted hadded.length_lt (fun pre entry post hsplit => ?_) fun entry _ => sourceBytes_append_ne _ _
    have hordered := hadded.ordered
    rw [hsplit, List.isChain_append] at hordered
    have hlast := addResolution_last fun last hlast => hordered.2.2 last hlast entry rfl
    refine (reads_source entry.1).bind ?_
    rw [← List.append_nil (valueBytes entry.2)]
    exact (hvalue entry.2).bind (Reads.lift hlast)
  exact hkey.bind hentries.bind_pure

theorem reads_statements {κ σ : Type} [LinearOrder κ] {added : σ → Prop} {readStatement : Reader StatementError (κ × σ)}
    {write : κ × σ → List UInt8} {statements : List (κ × σ)} (hadded : StatementsAdded added statements)
    (hread : ∀ statement, added statement.2 → Reads readStatement (write statement) statement)
    (hne : ∀ statement, write statement ≠ []) :
    Reads (readStatements readStatement) (countedBytes write statements) statements := by
  refine reads_counted hadded.length_lt (fun pre statement post hsplit => ?_) fun statement _ => hne statement
  have hordered := hadded.ordered
  rw [hsplit, List.pairwise_append] at hordered
  have hlast : ∀ other ∈ pre, other.1 < statement.1 := fun other hother =>
    hordered.2.2 other hother statement List.mem_cons_self
  rw [← Prod.mk.eta (p := statement), ← emplace_last hlast]
  exact (hread statement (hadded.added statement (by simp [hsplit]))).bind_pure

theorem reads_addressResolutionStatement {statement : UnresolvedAddress × List (ReceiptSource × FixedBytes 24)}
    (hadded : ResolutionsAdded statement.2) :
    Reads readAddressResolutionStatement (addressResolutionStatementBytes statement) statement :=
  reads_resolutionStatement (Reads.bytes statement.1.bytes).bind_pure (fun value => Reads.bytes value) hadded

theorem reads_mosaicResolutionStatement {statement : UnresolvedMosaicId × List (ReceiptSource × UInt64)}
    (hadded : ResolutionsAdded statement.2) :
    Reads readMosaicResolutionStatement (mosaicResolutionStatementBytes statement) statement :=
  reads_resolutionStatement (Reads.uint64 statement.1.value).bind_pure (fun value => Reads.uint64 value) hadded

theorem reads_blockStatement (statement : BlockStatement) :
    Reads readBlockStatement (blockStatementBytes statement.toBlockStatementData) statement.toBlockStatementData := by
  have htransactions := reads_statements statement.transactionStatements_added (fun _ => reads_transactionStatement)
    fun s => sourceBytes_append_ne s.1 _
  have haddresses := reads_statements statement.addressResolutionStatements_added
    (fun _ => reads_addressResolutionStatement) fun s hnil => by
      have hlength := congrArg List.length hnil
      simp [addressResolutionStatementBytes, resolutionStatementBytes, s.1.bytes.2] at hlength
  have hmosaics := reads_statements statement.mosaicResolutionStatements_added
    (fun _ => reads_mosaicResolutionStatement) fun s hnil => by
      have hlength := congrArg List.length hnil
      simp [mosaicResolutionStatementBytes, resolutionStatementBytes] at hlength
  exact htransactions.bind (haddresses.bind hmosaics.bind_pure)

end Catapult.Io
