import Catapult.Lib.Stateful
import Catapult.Model.BlockStatementBuilder

/-!
# Statements that were built

Whatever the calls of a builder are, its statement has its receipts in the order of their types and its resolutions in
the order of their sources, each different from the one before. Such a statement is read back as it was written.
-/

namespace Catapult.Model
open Fallible (bind_eq_ok)
open Io (ReceiptSource UnresolvedAddress UnresolvedMosaicId StatementError Receipt BlockStatementData addReceipt
  addResolution emplace receiptType)

/-! ## Additions to a map -/

section Map
variable {κ σ : Type} [LinearOrder κ] {key : κ} {add : σ → Except StatementError σ} {empty : σ}
  {statements statements' : List (κ × σ)}

inductive Added (key : κ) (add : σ → Except StatementError σ) (empty : σ) : List (κ × σ) → List (κ × σ) → Prop
  | last {s' : σ} (h : add empty = .ok s') : Added key add empty [] [(key, s')]
  | before {k : κ} {s s' : σ} {statements : List (κ × σ)} (hlt : key < k) (h : add empty = .ok s') :
      Added key add empty ((k, s) :: statements) ((key, s') :: (k, s) :: statements)
  | after {k : κ} {s : σ} {statements statements' : List (κ × σ)} (hlt : k < key)
      (h : Added key add empty statements statements') :
      Added key add empty ((k, s) :: statements) ((k, s) :: statements')
  | found {s s' : σ} {statements : List (κ × σ)} (h : add s = .ok s') :
      Added key add empty ((key, s) :: statements) ((key, s') :: statements)

theorem added_of_addTo (h : addTo key add empty statements = .ok statements') :
    Added key add empty statements statements' := by
  induction statements generalizing statements' with
  | nil =>
    rw [addTo] at h
    cases hadd : add empty with
    | error e => simp [hadd] at h
    | ok s' =>
      rw [hadd] at h
      cases h
      exact .last hadd
  | cons statement statements ih =>
    obtain ⟨k, s⟩ := statement
    rw [addTo] at h
    split at h
    next hlt =>
      cases hadd : add empty with
      | error e => simp [hadd] at h
      | ok s' =>
        rw [hadd] at h
        cases h
        exact .before hlt hadd
    next hge =>
      split at h
      next hlt =>
        cases hrest : addTo key add empty statements with
        | error e => simp [hrest] at h
        | ok rest =>
          rw [hrest] at h
          cases h
          exact .after hlt (ih hrest)
      next hle =>
        obtain rfl := le_antisymm (le_of_not_gt hge) (le_of_not_gt hle)
        cases hadd : add s with
        | error e => simp [hadd] at h
        | ok s' =>
          rw [hadd] at h
          cases h
          exact .found hadd

structure Built (built : σ → Prop) (statements : List (κ × σ)) : Prop where
  ordered : statements.Pairwise fun statement other => statement.1 < other.1
  built : ∀ statement ∈ statements, built statement.2

theorem Added.key_mem (h : Added key add empty statements statements') {statement : κ × σ}
    (hmem : statement ∈ statements') : statement.1 = key ∨ ∃ other ∈ statements, other.1 = statement.1 := by
  induction h with
  | last h =>
    rw [List.mem_singleton.1 hmem]
    exact .inl rfl
  | before hlt h =>
    rcases List.mem_cons.1 hmem with rfl | hmem
    · exact .inl rfl
    · exact .inr ⟨statement, hmem, rfl⟩
  | after hlt h ih =>
    rcases List.mem_cons.1 hmem with rfl | hmem
    · exact .inr ⟨_, List.mem_cons_self, rfl⟩
    · rcases ih hmem with heq | ⟨other, hother, heq⟩
      · exact .inl heq
      · exact .inr ⟨other, List.mem_cons_of_mem _ hother, heq⟩
  | found h =>
    rcases List.mem_cons.1 hmem with rfl | hmem
    · exact .inl rfl
    · exact .inr ⟨statement, List.mem_cons_of_mem _ hmem, rfl⟩

theorem Added.forall {P : κ × σ → Prop} (h : Added key add empty statements statements')
    (hP : ∀ statement ∈ statements, P statement)
    (hadd : ∀ s s', add s = .ok s' → P (key, s) ∨ s = empty → P (key, s')) :
    ∀ statement ∈ statements', P statement := by
  induction h with
  | last h => exact List.forall_mem_singleton.2 (hadd _ _ h (.inr rfl))
  | before hlt h => exact List.forall_mem_cons.2 ⟨hadd _ _ h (.inr rfl), hP⟩
  | after hlt h ih =>
    obtain ⟨hhead, htail⟩ := List.forall_mem_cons.1 hP
    exact List.forall_mem_cons.2 ⟨hhead, ih htail⟩
  | found h =>
    obtain ⟨hhead, htail⟩ := List.forall_mem_cons.1 hP
    exact List.forall_mem_cons.2 ⟨hadd _ _ h (.inl hhead), htail⟩

theorem Added.built {built : σ → Prop} (h : Added key add empty statements statements')
    (hbuilt : Built built statements) (hadd : ∀ s s', add s = .ok s' → built s ∨ s = empty → built s') :
    Built built statements' := by
  refine ⟨?_, h.forall hbuilt.built hadd⟩
  have hordered := hbuilt.ordered
  clear hbuilt
  induction h with
  | last h => exact List.pairwise_singleton _ _
  | before hlt h =>
    refine List.pairwise_cons.2 ⟨fun other hother => ?_, hordered⟩
    rcases List.mem_cons.1 hother with rfl | hother
    · exact hlt
    · exact hlt.trans ((List.pairwise_cons.1 hordered).1 other hother)
  | after hlt h ih =>
    obtain ⟨hhead, htail⟩ := List.pairwise_cons.1 hordered
    refine List.pairwise_cons.2 ⟨fun other hother => ?_, ih htail⟩
    rcases h.key_mem hother with heq | ⟨other', hother', heq⟩
    · rwa [heq]
    · rw [← heq]
      exact hhead other' hother'
  | found h => exact List.pairwise_cons.2 (List.pairwise_cons.1 hordered)

theorem Added.filterMap_eq {τ : Type} {f : κ × σ → Option τ} (h : Added key add empty statements statements')
    (hempty : ∀ s', add empty = .ok s' → f (key, s') = none)
    (hadd : ∀ s s', add s = .ok s' → f (key, s') = f (key, s)) : statements'.filterMap f = statements.filterMap f := by
  induction h with
  | last h => rw [List.filterMap_cons_none (hempty _ h)]
  | before hlt h => rw [List.filterMap_cons_none (hempty _ h)]
  | after hlt h ih => rw [List.filterMap_cons, List.filterMap_cons, ih]
  | found h => rw [List.filterMap_cons, List.filterMap_cons, hadd _ _ h]

end Map

/-! ## Statements -/

structure ReceiptsBuilt (receipts : List Receipt) : Prop where
  size_eq : ∀ receipt ∈ receipts, ofLeBytes (receipt.take 4) = receipt.length ∧ 8 ≤ receipt.length
  ordered : receipts.Pairwise fun receipt other => receiptType receipt ≤ receiptType other

theorem mem_addReceipt {receipt other : Receipt} {receipts : List Receipt} :
    other ∈ addReceipt receipt receipts ↔ other = receipt ∨ other ∈ receipts := by
  induction receipts with
  | nil => simp [addReceipt]
  | cons first receipts ih =>
    rw [addReceipt]
    split
    next => exact List.mem_cons
    next =>
      rw [List.mem_cons, ih, List.mem_cons]
      exact or_left_comm

theorem ReceiptsBuilt.add {receipts : List Receipt} (h : ReceiptsBuilt receipts) (receipt : SizedReceipt) :
    ReceiptsBuilt (addReceipt receipt.1 receipts) := by
  refine ⟨fun other hother => ?_, ?_⟩
  · rcases mem_addReceipt.1 hother with rfl | hother
    · exact receipt.2
    · exact h.size_eq other hother
  · have hordered := h.ordered
    clear h
    induction receipts with
    | nil => exact List.pairwise_singleton _ _
    | cons first receipts ih =>
      obtain ⟨hfirst, hrest⟩ := List.pairwise_cons.1 hordered
      rw [addReceipt]
      split
      next hlt =>
        refine List.pairwise_cons.2 ⟨fun other hother => ?_, hordered⟩
        rcases List.mem_cons.1 hother with rfl | hother
        · exact Nat.le_of_lt hlt
        · exact Nat.le_trans (Nat.le_of_lt hlt) (hfirst other hother)
      next hge =>
        refine List.pairwise_cons.2 ⟨fun other hother => ?_, ih hrest⟩
        rcases mem_addReceipt.1 hother with rfl | hother
        · exact Nat.le_of_not_lt hge
        · exact hfirst other hother

section Entries
variable {ρ : Type} [DecidableEq ρ] {source : ReceiptSource} {resolved : ρ}
  {entries entries' : List (ReceiptSource × ρ)}

structure EntriesBuilt (entries : List (ReceiptSource × ρ)) : Prop where
  ne_nil : entries ≠ []
  ordered : entries.IsChain fun entry next => entry.1 ≤ next.1 ∧ next.2 ≠ entry.2

theorem addResolution_cases (h : addResolution source resolved entries = .ok entries') :
    entries' = entries ∧ entries ≠ [] ∨ entries' = entries ++ [(source, resolved)] ∧
      ∀ last ∈ entries.getLast?, last.1 ≤ source ∧ resolved ≠ last.2 := by
  rw [addResolution] at h
  cases hlast : entries.getLast? with
  | none =>
    rw [hlast] at h
    cases h
    exact .inr ⟨rfl, fun last hmem => absurd hmem (Option.not_mem_none _)⟩
  | some last =>
    rw [hlast] at h
    dsimp only at h
    split at h
    next => cases h
    next hge =>
      split at h
      next =>
        cases h
        refine .inl ⟨rfl, ?_⟩
        rintro rfl
        cases hlast
      next hne =>
        cases h
        refine .inr ⟨rfl, fun other hother => ?_⟩
        cases hother
        exact ⟨le_of_not_gt hge, hne⟩

theorem entriesBuilt_of_addResolution (h : addResolution source resolved entries = .ok entries')
    (hbuilt : EntriesBuilt entries ∨ entries = []) : EntriesBuilt entries' := by
  rcases addResolution_cases h with ⟨rfl, hne⟩ | ⟨rfl, hlast⟩
  · exact hbuilt.resolve_right hne
  · refine ⟨List.append_ne_nil_of_right_ne_nil _ (List.cons_ne_nil _ _), ?_⟩
    rw [List.isChain_append]
    refine ⟨?_, List.isChain_singleton _, fun last hmem next hnext => ?_⟩
    · rcases hbuilt with hbuilt | rfl
      · exact hbuilt.ordered
      · exact .nil
    · cases hnext
      exact hlast last hmem

theorem exists_addResolution (h : ∀ last ∈ entries.getLast?, last.1 ≤ source) :
    ∃ entries', addResolution source resolved entries = .ok entries' := by
  rw [addResolution]
  cases hlast : entries.getLast? with
  | none => exact ⟨_, rfl⟩
  | some last =>
    dsimp only
    rw [if_neg (not_lt_of_ge (h last hlast))]
    split <;> exact ⟨_, rfl⟩

end Entries

structure StatementBuilt (statement : BlockStatementData) : Prop where
  transactionStatements : Built ReceiptsBuilt statement.transactionStatements
  addressResolutionStatements : Built EntriesBuilt statement.addressResolutionStatements
  mosaicResolutionStatements : Built EntriesBuilt statement.mosaicResolutionStatements

namespace BlockStatementBuilder
variable {builder builder' : BlockStatementBuilder} {call : Call}

/-- What a call does to the builder, with the addition to the map of its kind. -/
inductive Applied : BlockStatementBuilder → Call → BlockStatementBuilder → Prop
  | setSource {builder : BlockStatementBuilder} {source : ReceiptSource} :
      Applied builder (.setSource source) { builder with activeSource := source }
  | addReceipt {builder : BlockStatementBuilder} {receipt : SizedReceipt}
      {transactionStatements : List (ReceiptSource × List Receipt)}
      (h : Added builder.activeSource (fun receipts => .ok (Io.addReceipt receipt.1 receipts)) []
        builder.statement.transactionStatements transactionStatements) :
      Applied builder (.addReceipt receipt)
        { builder with statement := { builder.statement with transactionStatements } }
  | addAddressResolution {builder : BlockStatementBuilder} {unresolved : UnresolvedAddress} {resolved : FixedBytes 24}
      {addressResolutionStatements : List (UnresolvedAddress × List (ReceiptSource × FixedBytes 24))}
      (h : Added unresolved (addResolution builder.activeSource resolved) []
        builder.statement.addressResolutionStatements addressResolutionStatements) :
      Applied builder (.addAddressResolution unresolved resolved)
        { builder with statement := { builder.statement with addressResolutionStatements } }
  | addMosaicResolution {builder : BlockStatementBuilder} {unresolved : UnresolvedMosaicId} {resolved : UInt64}
      {mosaicResolutionStatements : List (UnresolvedMosaicId × List (ReceiptSource × UInt64))}
      (h : Added unresolved (addResolution builder.activeSource resolved) []
        builder.statement.mosaicResolutionStatements mosaicResolutionStatements) :
      Applied builder (.addMosaicResolution unresolved resolved)
        { builder with statement := { builder.statement with mosaicResolutionStatements } }

theorem applied_of_apply (h : builder.apply call = .ok builder') : Applied builder call builder' := by
  cases call with
  | setSource source =>
    cases h
    exact .setSource
  | addReceipt receipt =>
    rw [apply] at h
    obtain ⟨statements, hadd, h⟩ := bind_eq_ok h
    cases h
    exact .addReceipt (added_of_addTo hadd)
  | addAddressResolution unresolved resolved =>
    rw [apply] at h
    obtain ⟨statements, hadd, h⟩ := bind_eq_ok h
    cases h
    exact .addAddressResolution (added_of_addTo hadd)
  | addMosaicResolution unresolved resolved =>
    rw [apply] at h
    obtain ⟨statements, hadd, h⟩ := bind_eq_ok h
    cases h
    exact .addMosaicResolution (added_of_addTo hadd)

theorem run_cons (builder : BlockStatementBuilder) (call : Call) (calls : List Call) :
    (builder.run (call :: calls) = builder.run calls ∨
      ∃ builder', Applied builder call builder' ∧ builder.run (call :: calls) = builder'.run calls) := by
  cases h : builder.apply call with
  | error e =>
    refine .inl ?_
    rw [run, List.foldl_cons, h]
    rfl
  | ok builder' =>
    refine .inr ⟨builder', applied_of_apply h, ?_⟩
    rw [run, List.foldl_cons, h]
    rfl

theorem run_invariant {P : BlockStatementBuilder → Prop} {calls : List Call} (h : P builder)
    (hstep : ∀ call ∈ calls, ∀ builder builder', P builder → Applied builder call builder' → P builder') :
    P (builder.run calls) := by
  induction calls generalizing builder with
  | nil => exact h
  | cons call calls ih =>
    have hrest (other : BlockStatementBuilder) (h : P other) : P (other.run calls) :=
      ih h fun call hcall => hstep call (List.mem_cons_of_mem _ hcall)
    rcases run_cons builder call calls with heq | ⟨builder', happlied, heq⟩
    · rw [heq]
      exact hrest builder h
    · rw [heq]
      exact hrest builder' (hstep call List.mem_cons_self builder builder' h happlied)

theorem Applied.statementBuilt (happlied : Applied builder call builder') (h : StatementBuilt builder.statement) :
    StatementBuilt builder'.statement := by
  cases happlied with
  | setSource => exact h
  | @addReceipt receipt _ hadded =>
    refine { h with transactionStatements := hadded.built h.transactionStatements fun receipts _ hadd hbuilt => ?_ }
    cases hadd
    refine ReceiptsBuilt.add ?_ receipt
    rcases hbuilt with hbuilt | rfl
    · exact hbuilt
    · exact ⟨fun _ hmem => (nomatch hmem), .nil⟩
  | addAddressResolution hadded =>
    exact { h with
      addressResolutionStatements := hadded.built h.addressResolutionStatements fun _ _ =>
        entriesBuilt_of_addResolution }
  | addMosaicResolution hadded =>
    exact { h with
      mosaicResolutionStatements := hadded.built h.mosaicResolutionStatements fun _ _ => entriesBuilt_of_addResolution }

theorem statementBuilt_init : StatementBuilt init.statement :=
  ⟨⟨.nil, fun _ hmem => nomatch hmem⟩, ⟨.nil, fun _ hmem => nomatch hmem⟩, ⟨.nil, fun _ hmem => nomatch hmem⟩⟩

theorem statementBuilt_run (calls : List Call) : StatementBuilt (init.run calls).statement :=
  run_invariant (P := fun builder => StatementBuilt builder.statement) statementBuilt_init
    fun _ _ _ _ h happlied => happlied.statementBuilt h

end BlockStatementBuilder

/-! ## Round trip -/

theorem reads_of_write {statement : BlockStatementData} {bytes : List UInt8} (h : StatementBuilt statement)
    (hwrite : writeBlockStatement statement = some bytes) : Io.readBlockStatement bytes = .ok statement [] := by
  rw [writeBlockStatement] at hwrite
  split at hwrite
  next hfits =>
    obtain ⟨htransactions, hreceipts, haddresses, haddressEntries, hmosaics, hmosaicEntries⟩ := hfits
    cases hwrite
    have hreads := Io.reads_blockStatement
      { statement with
        transactionStatements_added := ⟨htransactions, h.transactionStatements.ordered, fun s hs =>
          ⟨hreceipts s hs, (h.transactionStatements.built s hs).size_eq, (h.transactionStatements.built s hs).ordered⟩⟩
        addressResolutionStatements_added := ⟨haddresses, h.addressResolutionStatements.ordered, fun s hs =>
          ⟨haddressEntries s hs, (h.addressResolutionStatements.built s hs).ordered⟩⟩
        mosaicResolutionStatements_added := ⟨hmosaics, h.mosaicResolutionStatements.ordered, fun s hs =>
          ⟨hmosaicEntries s hs, (h.mosaicResolutionStatements.built s hs).ordered⟩⟩ }
    exact hreads.run
  next => cases hwrite

def NonDecreasing : ReceiptSource → List Call → Prop
  | _, [] => True
  | source, .setSource next :: calls => source ≤ next ∧ NonDecreasing next calls
  | source, _ :: calls => NonDecreasing source calls

theorem exists_addTo {κ σ : Type} [LinearOrder κ] (key : κ) (add : σ → Except StatementError σ) (empty : σ)
    {statements : List (κ × σ)} (hempty : ∃ s', add empty = .ok s')
    (hadd : ∀ statement ∈ statements, ∃ s', add statement.2 = .ok s') :
    ∃ statements', addTo key add empty statements = .ok statements' := by
  induction statements with
  | nil =>
    obtain ⟨s', hempty⟩ := hempty
    exact ⟨[(key, s')], by rw [addTo, hempty]; rfl⟩
  | cons statement statements ih =>
    obtain ⟨k, s⟩ := statement
    obtain ⟨hhead, htail⟩ := List.forall_mem_cons.1 hadd
    rw [addTo]
    split
    · obtain ⟨s', hempty⟩ := hempty
      exact ⟨_, by rw [hempty]; rfl⟩
    split
    · obtain ⟨statements', hrest⟩ := ih htail
      exact ⟨_, by rw [hrest]; rfl⟩
    · obtain ⟨s', hs⟩ := hhead
      exact ⟨_, by rw [hs]; rfl⟩

structure SourcesLe (source : ReceiptSource) (statement : BlockStatementData) : Prop where
  addresses : ∀ s ∈ statement.addressResolutionStatements, ∀ entry ∈ s.2, entry.1 ≤ source
  mosaics : ∀ s ∈ statement.mosaicResolutionStatements, ∀ entry ∈ s.2, entry.1 ≤ source

theorem forall_of_addResolution {ρ : Type} [DecidableEq ρ] {source : ReceiptSource} {resolved : ρ}
    {entries entries' : List (ReceiptSource × ρ)} {P : ReceiptSource → Prop} (hsource : P source)
    (h : addResolution source resolved entries = .ok entries') (hall : (∀ entry ∈ entries, P entry.1) ∨ entries = []) :
    ∀ entry ∈ entries', P entry.1 := by
  have hentries : ∀ entry ∈ entries, P entry.1 := by
    rcases hall with hall | rfl
    · exact hall
    · exact fun _ hmem => nomatch hmem
  rcases addResolution_cases h with ⟨rfl, -⟩ | ⟨rfl, -⟩
  · exact hentries
  · exact List.forall_mem_append.2 ⟨hentries, List.forall_mem_singleton.2 hsource⟩

namespace BlockStatementBuilder
variable {builder builder' : BlockStatementBuilder} {call : Call}

theorem exists_apply (h : SourcesLe builder.activeSource builder.statement) (call : Call) :
    ∃ builder', builder.apply call = .ok builder' := by
  have hnone {ρ : Type} [DecidableEq ρ] (resolved : ρ) :
      ∃ entries', addResolution builder.activeSource resolved [] = .ok entries' :=
    exists_addResolution fun last hlast => nomatch hlast
  cases call with
  | setSource source => exact ⟨_, rfl⟩
  | addReceipt receipt =>
    obtain ⟨statements, hadd⟩ := exists_addTo builder.activeSource
      (fun receipts => .ok (Io.addReceipt receipt.1 receipts)) [] ⟨_, rfl⟩ fun s
        (_ : s ∈ builder.statement.transactionStatements) => ⟨_, rfl⟩
    exact ⟨_, by rw [apply, hadd]; rfl⟩
  | addAddressResolution unresolved resolved =>
    obtain ⟨statements, hadd⟩ := exists_addTo unresolved _ _ (hnone resolved) fun s
      (hs : s ∈ builder.statement.addressResolutionStatements) =>
        exists_addResolution fun last hlast => h.addresses s hs last (List.mem_of_getLast? hlast)
    exact ⟨_, by rw [apply, hadd]; rfl⟩
  | addMosaicResolution unresolved resolved =>
    obtain ⟨statements, hadd⟩ := exists_addTo unresolved _ _ (hnone resolved) fun s
      (hs : s ∈ builder.statement.mosaicResolutionStatements) =>
        exists_addResolution fun last hlast => h.mosaics s hs last (List.mem_of_getLast? hlast)
    exact ⟨_, by rw [apply, hadd]; rfl⟩

theorem Applied.sourcesLe (happlied : Applied builder call builder')
    (h : SourcesLe builder.activeSource builder.statement)
    (hsource : ∀ source, call = .setSource source → builder.activeSource ≤ source) :
    SourcesLe builder'.activeSource builder'.statement := by
  cases happlied with
  | setSource =>
    have hle := hsource _ rfl
    exact ⟨fun s hs entry hentry => (h.addresses s hs entry hentry).trans hle,
      fun s hs entry hentry => (h.mosaics s hs entry hentry).trans hle⟩
  | addReceipt hadded => exact ⟨h.addresses, h.mosaics⟩
  | addAddressResolution hadded =>
    exact { h with
      addresses := hadded.forall (P := fun s => ∀ entry ∈ s.2, entry.1 ≤ builder.activeSource) h.addresses
        fun _ _ => forall_of_addResolution (P := (· ≤ builder.activeSource)) le_rfl }
  | addMosaicResolution hadded =>
    exact { h with
      mosaics := hadded.forall (P := fun s => ∀ entry ∈ s.2, entry.1 ≤ builder.activeSource) h.mosaics
        fun _ _ => forall_of_addResolution (P := (· ≤ builder.activeSource)) le_rfl }

theorem foldlM_apply {calls : List Call} (h : SourcesLe builder.activeSource builder.statement)
    (hcalls : NonDecreasing builder.activeSource calls) : calls.foldlM apply builder = .ok (builder.run calls) := by
  induction calls generalizing builder with
  | nil => rfl
  | cons call calls ih =>
    obtain ⟨builder', happly⟩ := exists_apply h call
    have happlied := applied_of_apply happly
    have hle : SourcesLe builder'.activeSource builder'.statement := happlied.sourcesLe h fun source heq => by
      rw [heq] at hcalls
      exact hcalls.1
    have hrest : NonDecreasing builder'.activeSource calls := by
      cases happlied with
      | setSource => exact hcalls.2
      | addReceipt | addAddressResolution | addMosaicResolution => exact hcalls
    rw [List.foldlM_cons, happly, run, List.foldl_cons, happly]
    exact ih hle hrest

end BlockStatementBuilder
end Catapult.Model
