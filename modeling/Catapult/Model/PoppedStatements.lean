import Catapult.Model.BuiltStatements

/-!
# Popping a source

A pop copies what was added under the primary ids up to the previous one (`truncate`). Additions under the next primary
id are not seen through a truncation, so that a pop after them restores the statement before them.
-/

namespace Catapult.Model
open Io (ReceiptSource UnresolvedAddress UnresolvedMosaicId StatementError Receipt BlockStatementData addReceipt
  addResolution emplace receiptType)

/-! ## Truncation -/

def Kept (maxSourcePrimaryId : UInt32) (source : ReceiptSource) : Bool :=
  !decide (maxSourcePrimaryId < source.primaryId)

section Truncate
variable {κ ρ : Type} (p : UInt32)

def truncateEntries (entries : List (ReceiptSource × ρ)) : List (ReceiptSource × ρ) :=
  entries.filter fun entry => Kept p entry.1

def truncateReceipts (statement : ReceiptSource × List Receipt) : Option (ReceiptSource × List Receipt) :=
  if Kept p statement.1 then some statement else none

def truncateResolutions (statement : κ × List (ReceiptSource × ρ)) : Option (κ × List (ReceiptSource × ρ)) :=
  if (truncateEntries p statement.2).isEmpty then none else some (statement.1, truncateEntries p statement.2)

def truncate (statement : BlockStatementData) : BlockStatementData :=
  ⟨statement.transactionStatements.filterMap (truncateReceipts p),
    statement.addressResolutionStatements.filterMap (truncateResolutions p),
    statement.mosaicResolutionStatements.filterMap (truncateResolutions p)⟩

end Truncate

/-! ## Copies -/

theorem foldlM_addReceipt {receipts copied : List Receipt}
    (h : (copied ++ receipts).Pairwise fun receipt other => receiptType receipt ≤ receiptType other) :
    receipts.foldlM (fun statement receipt => (.ok (addReceipt receipt statement) : Except StatementError _)) copied =
      .ok (copied ++ receipts) := by
  induction receipts generalizing copied with
  | nil => rw [List.append_nil]; rfl
  | cons receipt receipts ih =>
    rw [← List.singleton_append, ← List.append_assoc] at h ⊢
    have hlast : addReceipt receipt copied = copied ++ [receipt] := by
      refine Io.addReceipt_last fun other hother => ?_
      exact (List.pairwise_append.1 (List.pairwise_append.1 h).1).2.2 other hother receipt List.mem_cons_self
    rw [List.singleton_append, List.foldlM_cons, hlast]
    exact ih h

section Entries
variable {ρ : Type} [DecidableEq ρ] {p : UInt32} {entries copied : List (ReceiptSource × ρ)}

theorem primaryId_le_of_le {source source' : ReceiptSource} (h : source ≤ source') :
    source.primaryId ≤ source'.primaryId := by
  rcases Prod.Lex.toLex_le_toLex.1 h with hlt | ⟨heq, -⟩
  · exact UInt32.le_iff_toNat_le.2 (Nat.le_of_lt hlt)
  · exact UInt32.le_iff_toNat_le.2 (Nat.le_of_eq heq)

omit [DecidableEq ρ] in
theorem pairwise_of_isChain (h : entries.IsChain fun entry next => entry.1 ≤ next.1 ∧ next.2 ≠ entry.2) :
    entries.Pairwise fun entry next => entry.1 ≤ next.1 := by
  have hchain : (entries.map Prod.fst).IsChain fun source source' => source ≤ source' := by
    rw [List.isChain_map]
    exact h.imp fun _ _ h => h.1
  exact List.pairwise_map.1 (List.isChain_iff_pairwise.1 hchain)

/-- By induction on the entries that are left. The kept ones come first. -/
theorem foldlM_copyEntry
    (h : (copied ++ entries).IsChain fun entry next => entry.1 ≤ next.1 ∧ next.2 ≠ entry.2) :
    entries.foldlM (copyEntry p) (truncateEntries p copied) = .ok (truncateEntries p (copied ++ entries)) := by
  induction entries generalizing copied with
  | nil => rw [List.append_nil]; rfl
  | cons entry entries ih =>
    rw [← List.singleton_append, ← List.append_assoc] at h ⊢
    rw [List.singleton_append, List.foldlM_cons]
    have hcopy : copyEntry p (truncateEntries p copied) entry = .ok (truncateEntries p (copied ++ [entry])) := by
      rw [copyEntry]
      split
      next hlater =>
        have hkept : Kept p entry.1 = false := by simpa [Kept] using hlater
        have happend : truncateEntries p (copied ++ [entry]) = truncateEntries p copied := by
          simp [truncateEntries, hkept]
        rw [happend]
        rfl
      next hkept =>
        have hkept : Kept p entry.1 = true := by simpa [Kept] using hkept
        have hchain := (List.isChain_append.1 h).1
        have hcopied : truncateEntries p copied = copied := by
          refine List.filter_eq_self.2 fun other hother => ?_
          have hle := (List.pairwise_append.1 (pairwise_of_isChain hchain)).2.2 other hother entry List.mem_cons_self
          simp only [Kept, Bool.not_eq_true', decide_eq_false_iff_not, UInt32.not_lt] at hkept ⊢
          exact UInt32.le_trans (primaryId_le_of_le hle) hkept
        have happend : truncateEntries p (copied ++ [entry]) = truncateEntries p copied ++ [entry] := by
          simp [truncateEntries, hkept]
        rw [happend, hcopied]
        exact Io.addResolution_last fun last hlast => (List.isChain_append.1 hchain).2.2 last hlast entry rfl
    rw [hcopy]
    exact ih h

end Entries

/-- A copy loop over less than 2^32 values ends, and so much fuel is enough. -/
structure LoopsEnd (p : UInt32) (statement : BlockStatementData) : Prop where
  transactions : ∀ s ∈ statement.transactionStatements, s.1.primaryId ≤ p → s.2.length < 2 ^ 32
  addresses : ∀ s ∈ statement.addressResolutionStatements, s.2.length < 2 ^ 32
  mosaics : ∀ s ∈ statement.mosaicResolutionStatements, s.2.length < 2 ^ 32

section Copy
variable {fuel : Nat} {p : UInt32}

theorem copyTransactionStatements_eq {source destination : List (ReceiptSource × List Receipt)}
    (hfuel : 2 ^ 32 ≤ fuel) (hbuilt : Built ReceiptsBuilt source)
    (hlength : ∀ s ∈ source, s.1.primaryId ≤ p → s.2.length < 2 ^ 32)
    (hdestination : ∀ d ∈ destination, ∀ s ∈ source, d.1 < s.1) :
    copyTransactionStatements fuel p source destination =
      pure (destination ++ source.filterMap (truncateReceipts p)) := by
  induction source generalizing destination with
  | nil => rw [copyTransactionStatements, List.filterMap_nil, List.append_nil]
  | cons statement source ih =>
    obtain ⟨key, receipts⟩ := statement
    obtain ⟨hlt, hordered⟩ := List.pairwise_cons.1 hbuilt.ordered
    obtain ⟨hreceipts, hrest⟩ := List.forall_mem_cons.1 hbuilt.built
    obtain ⟨hlength, hlengths⟩ := List.forall_mem_cons.1 hlength
    rw [copyTransactionStatements]
    split
    next hlater =>
      have hkept : Kept p key = false := by simpa [Kept] using hlater
      rw [ih ⟨hordered, hrest⟩ hlengths fun d hd s hs => hdestination d hd s (List.mem_cons_of_mem _ hs),
        List.filterMap_cons_none (by rw [truncateReceipts, hkept]; rfl)]
    next hkept =>
      have hlength := hlength (UInt32.not_lt.1 hkept)
      have hkept : Kept p key = true := by simpa [Kept] using hkept
      have hcopy := indexLoop_ends hlength (@foldlM_addReceipt receipts [] hreceipts.ordered)
        (Nat.lt_of_lt_of_le hlength hfuel)
      rw [hcopy, pure_bind, List.nil_append,
        Io.emplace_last fun d hd => hdestination d hd (key, receipts) List.mem_cons_self,
        ih ⟨hordered, hrest⟩ hlengths, List.append_assoc,
        List.filterMap_cons_some (by rw [truncateReceipts, if_pos hkept])]
      · rfl
      · intro d hd s hs
        rcases List.mem_append.1 hd with hd | hd
        · exact hdestination d hd s (List.mem_cons_of_mem _ hs)
        · rw [List.mem_singleton.1 hd]
          exact hlt s hs

theorem copyResolutionStatements_eq {κ ρ : Type} [LinearOrder κ] [DecidableEq ρ]
    {source destination : List (κ × List (ReceiptSource × ρ))} (hfuel : 2 ^ 32 ≤ fuel)
    (hbuilt : Built EntriesBuilt source) (hlength : ∀ s ∈ source, s.2.length < 2 ^ 32)
    (hdestination : ∀ d ∈ destination, ∀ s ∈ source, d.1 < s.1) :
    copyResolutionStatements fuel p source destination =
      pure (destination ++ source.filterMap (truncateResolutions p)) := by
  induction source generalizing destination with
  | nil => rw [copyResolutionStatements, List.filterMap_nil, List.append_nil]
  | cons statement source ih =>
    obtain ⟨key, entries⟩ := statement
    obtain ⟨hlt, hordered⟩ := List.pairwise_cons.1 hbuilt.ordered
    obtain ⟨hentries, hrest⟩ := List.forall_mem_cons.1 hbuilt.built
    obtain ⟨hlength, hlengths⟩ := List.forall_mem_cons.1 hlength
    have hcopy := indexLoop_ends hlength (@foldlM_copyEntry _ _ p entries [] hentries.ordered)
      (Nat.lt_of_lt_of_le hlength hfuel)
    rw [List.nil_append] at hcopy
    have hcopied : indexLoop (copyEntry p) entries fuel 0 [] = pure (truncateEntries p entries) := hcopy
    rw [copyResolutionStatements, hcopied, pure_bind]
    split
    next hempty =>
      rw [ih ⟨hordered, hrest⟩ hlengths fun d hd s hs => hdestination d hd s (List.mem_cons_of_mem _ hs),
        List.filterMap_cons_none (by rw [truncateResolutions, if_pos hempty])]
    next hempty =>
      rw [Io.emplace_last fun d hd => hdestination d hd (key, entries) List.mem_cons_self,
        ih ⟨hordered, hrest⟩ hlengths, List.append_assoc,
        List.filterMap_cons_some (by rw [truncateResolutions, if_neg hempty])]
      · rfl
      · intro d hd s hs
        rcases List.mem_append.1 hd with hd | hd
        · exact hdestination d hd s (List.mem_cons_of_mem _ hs)
        · rw [List.mem_singleton.1 hd]
          exact hlt s hs

theorem deepCopyTo_eq {statement : BlockStatementData} (hfuel : 2 ^ 32 ≤ fuel) (hbuilt : StatementBuilt statement)
    (hends : LoopsEnd p statement) : deepCopyTo fuel statement p = pure (truncate p statement) := by
  have hempty {κ σ : Type} [LT κ] (source : List (κ × σ)) : ∀ d ∈ ([] : List (κ × σ)), ∀ s ∈ source, d.1 < s.1 :=
    fun _ hd => nomatch hd
  rw [deepCopyTo, copyTransactionStatements_eq hfuel hbuilt.transactionStatements hends.transactions (hempty _),
    pure_bind, copyResolutionStatements_eq hfuel hbuilt.addressResolutionStatements hends.addresses (hempty _),
    pure_bind, copyResolutionStatements_eq hfuel hbuilt.mosaicResolutionStatements hends.mosaics (hempty _), pure_bind]
  rfl

end Copy

/-! ## Primary ids -/

structure PrimaryIdsLe (p : UInt32) (statement : BlockStatementData) : Prop where
  transactions : ∀ s ∈ statement.transactionStatements, s.1.primaryId ≤ p
  addresses : ∀ s ∈ statement.addressResolutionStatements, ∀ entry ∈ s.2, entry.1.primaryId ≤ p
  mosaics : ∀ s ∈ statement.mosaicResolutionStatements, ∀ entry ∈ s.2, entry.1.primaryId ≤ p

section PrimaryIds
variable {p : UInt32}

theorem kept_iff {source : ReceiptSource} : Kept p source = true ↔ source.primaryId ≤ p := by
  rw [Kept, Bool.not_eq_true', decide_eq_false_iff_not, UInt32.not_lt]

theorem kept_eq_false {source : ReceiptSource} (h : p < source.primaryId) : Kept p source = false := by
  rw [Kept, decide_eq_true h]
  rfl

theorem filterMap_truncateResolutions_eq {κ ρ : Type} {statements : List (κ × List (ReceiptSource × ρ))}
    (hbuilt : ∀ s ∈ statements, EntriesBuilt s.2) (h : ∀ s ∈ statements, ∀ entry ∈ s.2, entry.1.primaryId ≤ p) :
    statements.filterMap (truncateResolutions p) = statements := by
  have hsome : ∀ s ∈ statements, truncateResolutions p s = some s := fun s hs => by
    have hentries : truncateEntries p s.2 = s.2 :=
      List.filter_eq_self.2 fun entry hentry => kept_iff.2 (h s hs entry hentry)
    rw [truncateResolutions, hentries, if_neg (by simpa using (hbuilt s hs).ne_nil)]
  rw [List.filterMap_congr hsome, List.filterMap_some]

theorem truncate_eq_self {statement : BlockStatementData} (hbuilt : StatementBuilt statement)
    (h : PrimaryIdsLe p statement) : truncate p statement = statement := by
  have hsome : ∀ s ∈ statement.transactionStatements, truncateReceipts p s = some s := fun s hs =>
    if_pos (kept_iff.2 (h.transactions s hs))
  rw [truncate, List.filterMap_congr hsome, List.filterMap_some,
    filterMap_truncateResolutions_eq hbuilt.addressResolutionStatements.built h.addresses,
    filterMap_truncateResolutions_eq hbuilt.mosaicResolutionStatements.built h.mosaics]

section Entries
variable {ρ : Type} [DecidableEq ρ] {source : ReceiptSource} {resolved : ρ}
  {entries entries' : List (ReceiptSource × ρ)}

theorem truncateEntries_addResolution (hsource : p < source.primaryId)
    (h : addResolution source resolved entries = .ok entries') :
    truncateEntries p entries' = truncateEntries p entries := by
  rcases addResolution_cases h with ⟨rfl, -⟩ | ⟨rfl, -⟩
  · rfl
  · simp [truncateEntries, kept_eq_false hsource]

theorem filterMap_truncateResolutions_of_added {κ : Type} [LinearOrder κ] {key : κ}
    {statements statements' : List (κ × List (ReceiptSource × ρ))} (hsource : p < source.primaryId)
    (h : Added key (addResolution source resolved) [] statements statements') :
    statements'.filterMap (truncateResolutions p) = statements.filterMap (truncateResolutions p) := by
  refine h.filterMap_eq (fun entries' hadd => ?_) fun entries entries' hadd => ?_
  · rw [truncateResolutions, truncateEntries_addResolution hsource hadd]
    rfl
  · rw [truncateResolutions, truncateResolutions, truncateEntries_addResolution hsource hadd]

end Entries
end PrimaryIds

namespace BlockStatementBuilder
variable {builder builder' : BlockStatementBuilder} {call : Call} {p : UInt32}

theorem Applied.primaryIdsLe (happlied : Applied builder call builder') (h : PrimaryIdsLe p builder.statement)
    (hsource : builder.activeSource.primaryId ≤ p) : PrimaryIdsLe p builder'.statement := by
  cases happlied with
  | setSource => exact h
  | addReceipt hadded =>
    exact { h with
      transactions := hadded.forall (P := fun s => s.1.primaryId ≤ p) h.transactions fun _ _ _ _ => hsource }
  | addAddressResolution hadded =>
    exact { h with
      addresses := hadded.forall (P := fun s => ∀ entry ∈ s.2, entry.1.primaryId ≤ p) h.addresses
        fun _ _ => forall_of_addResolution (P := (·.primaryId ≤ p)) hsource }
  | addMosaicResolution hadded =>
    exact { h with
      mosaics := hadded.forall (P := fun s => ∀ entry ∈ s.2, entry.1.primaryId ≤ p) h.mosaics
        fun _ _ => forall_of_addResolution (P := (·.primaryId ≤ p)) hsource }

theorem Applied.truncate_eq (happlied : Applied builder call builder') (hsource : p < builder.activeSource.primaryId) :
    truncate p builder'.statement = truncate p builder.statement := by
  cases happlied with
  | setSource => rfl
  | addReceipt hadded =>
    have hnone (receipts : List Receipt) : truncateReceipts p (builder.activeSource, receipts) = none := by
      rw [truncateReceipts, kept_eq_false hsource]
      rfl
    have heq := hadded.filterMap_eq (f := truncateReceipts p) (fun _ _ => hnone _) fun _ _ _ =>
      (hnone _).trans (hnone _).symm
    simp only [truncate, heq]
  | addAddressResolution hadded | addMosaicResolution hadded =>
    simp only [truncate, filterMap_truncateResolutions_of_added hsource hadded]

/-- The calls set sources of these primary ids only. -/
def SetsPrimaryIds (P : UInt32 → Prop) (calls : List Call) : Prop :=
  ∀ source, .setSource source ∈ calls → P source.primaryId

theorem Applied.primaryId {P : UInt32 → Prop} (happlied : Applied builder call builder')
    (h : P builder.activeSource.primaryId) (hsource : ∀ source, call = .setSource source → P source.primaryId) :
    P builder'.activeSource.primaryId := by
  cases happlied with
  | setSource => exact hsource _ rfl
  | addReceipt | addAddressResolution | addMosaicResolution => exact h

theorem run_append (builder : BlockStatementBuilder) (calls additions : List Call) :
    builder.run (calls ++ additions) = (builder.run calls).run additions := List.foldl_append

theorem primaryIdsLe_run {calls : List Call} (hcalls : SetsPrimaryIds (· ≤ p) calls) :
    PrimaryIdsLe p (init.run calls).statement := by
  have hrun := @run_invariant init
    (fun builder => PrimaryIdsLe p builder.statement ∧ builder.activeSource.primaryId ≤ p) calls
    ⟨⟨fun _ hmem => (nomatch hmem), fun _ hmem => (nomatch hmem), fun _ hmem => (nomatch hmem)⟩, UInt32.zero_le⟩
    fun call hcall builder builder' h happlied =>
      ⟨happlied.primaryIdsLe h.1 h.2,
        happlied.primaryId (P := (· ≤ p)) h.2 fun source heq => hcalls source (heq ▸ hcall)⟩
  exact hrun.1

theorem truncate_run {calls : List Call} {q : UInt32} (hq : p < q) (hsource : builder.activeSource.primaryId = q)
    (hcalls : SetsPrimaryIds (· = q) calls) :
    truncate p (builder.run calls).statement = truncate p builder.statement ∧
      (builder.run calls).activeSource.primaryId = q :=
  run_invariant
    (P := fun other => truncate p other.statement = truncate p builder.statement ∧ other.activeSource.primaryId = q)
    ⟨rfl, hsource⟩ fun _ hcall _ _ h happlied =>
      ⟨(happlied.truncate_eq (h.2.symm ▸ hq)).trans h.1,
        happlied.primaryId (P := (· = q)) h.2 fun source heq => hcalls source (heq ▸ hcall)⟩

theorem lt_add_one_of_ne (hp : p + 1 ≠ 0) : p < p + 1 := by
  have hlt := p.toNat_lt
  have hne : (p + 1).toNat ≠ 0 := fun h => hp (UInt32.toNat_inj.1 h)
  rw [UInt32.toNat_add, UInt32.toNat_one] at hne
  rw [UInt32.lt_iff_toNat_lt, UInt32.toNat_add, UInt32.toNat_one]
  omega

theorem popSource_ends {calls additions : List Call} {s : UInt32} (hp : p + 1 ≠ 0)
    (hcalls : SetsPrimaryIds (· ≤ p) calls) (hadditions : SetsPrimaryIds (· = p + 1) additions)
    (hends : LoopsEnd p (init.run (calls ++ .setSource ⟨p + 1, s⟩ :: additions)).statement) :
    Ends (fun fuel => ((init.run (calls ++ .setSource ⟨p + 1, s⟩ :: additions)).popSource fuel).run)
      (.ok ⟨⟨p, 0⟩, (init.run calls).statement⟩) := by
  obtain ⟨htruncate, hsource⟩ := @truncate_run
    { init.run calls with activeSource := ⟨p + 1, s⟩ } p additions _ (lt_add_one_of_ne hp) rfl hadditions
  have hbuilt := statementBuilt_run (calls ++ .setSource ⟨p + 1, s⟩ :: additions)
  rw [run_append] at hends hbuilt ⊢
  change LoopsEnd p (run { init.run calls with activeSource := ⟨p + 1, s⟩ } additions).statement at hends
  change StatementBuilt (run { init.run calls with activeSource := ⟨p + 1, s⟩ } additions).statement at hbuilt
  refine ⟨2 ^ 32, fun fuel hfuel => ?_⟩
  change (popSource (run { init.run calls with activeSource := ⟨p + 1, s⟩ } additions) fuel).run = _
  rw [popSource, if_neg (by rw [hsource]; exact hp)]
  dsimp only
  rw [hsource, UInt32.add_sub_cancel, deepCopyTo_eq hfuel hbuilt hends, htruncate,
    truncate_eq_self (statementBuilt_run calls) (primaryIdsLe_run hcalls)]
  rfl

/-- A statement is read back as it was written, and a pop restores the statement before the primary id. -/
theorem restores_statements :
    (∀ calls, NonDecreasing ⟨0, 0⟩ calls → calls.foldlM apply init = .ok (init.run calls) ∧
      ∀ bytes, writeBlockStatement (init.run calls).statement = some bytes →
        Io.readBlockStatement bytes = .ok (init.run calls).statement []) ∧
    ∀ (p s : UInt32) (calls additions : List Call), p + 1 ≠ 0 → SetsPrimaryIds (· ≤ p) calls →
      SetsPrimaryIds (· = p + 1) additions →
      LoopsEnd p (init.run (calls ++ .setSource ⟨p + 1, s⟩ :: additions)).statement →
      Ends (fun fuel => ((init.run (calls ++ .setSource ⟨p + 1, s⟩ :: additions)).popSource fuel).run)
        (.ok ⟨⟨p, 0⟩, (init.run calls).statement⟩) := by
  refine ⟨fun calls hcalls => ⟨?_, fun bytes hwrite => ?_⟩, fun p s calls additions hp hcalls hadditions hends => ?_⟩
  · exact foldlM_apply ⟨fun _ hmem => (nomatch hmem), fun _ hmem => (nomatch hmem)⟩ hcalls
  · exact reads_of_write (statementBuilt_run calls) hwrite
  · exact popSource_ends hp hcalls hadditions hends

def sampleReceipt : SizedReceipt := ⟨[8, 0, 0, 0, 1, 0, 0, 0], by decide⟩

theorem restores_statements_sample :
    Ends (fun fuel => ((init.run ([.addReceipt sampleReceipt] ++ .setSource ⟨0 + 1, 2⟩ ::
        [.addReceipt sampleReceipt])).popSource fuel).run)
      (.ok ⟨⟨0, 0⟩, (init.run [.addReceipt sampleReceipt]).statement⟩) :=
  restores_statements.2 0 2 [.addReceipt sampleReceipt] [.addReceipt sampleReceipt] (by decide)
    (fun _ hmem => by cases hmem with | tail _ hmem => cases hmem)
    (fun _ hmem => by cases hmem with | tail _ hmem => cases hmem)
    ⟨by decide, fun _ hmem => (nomatch hmem), fun _ hmem => (nomatch hmem)⟩

theorem run_replicate_addReceipt (receipt : SizedReceipt) (n : Nat) :
    init.run (List.replicate (n + 1) (.addReceipt receipt)) =
      ⟨⟨0, 0⟩, { transactionStatements := [(⟨0, 0⟩, List.replicate (n + 1) receipt.1)] }⟩ := by
  induction n with
  | zero => rfl
  | succ n ih =>
    have hlast : Io.addReceipt receipt.1 (List.replicate (n + 1) receipt.1) = List.replicate (n + 2) receipt.1 := by
      rw [Io.addReceipt_last fun other hother => Nat.le_of_eq (by rw [List.eq_of_mem_replicate hother]),
        ← List.replicate_succ']
    rw [List.replicate_succ', run_append, ih, run, List.foldl_cons, List.foldl_nil, apply]
    simp only [addTo, lt_irrefl, if_false, hlast]
    rfl

theorem popSource_none {receipt : SizedReceipt} {n : Nat} (hn : 2 ^ 32 ≤ n + 1) (fuel : Nat) :
    ((init.run (List.replicate (n + 1) (.addReceipt receipt) ++ [.setSource ⟨0 + 1, 0⟩])).popSource fuel).run =
      none := by
  have hlength : 2 ^ 32 ≤ (List.replicate (n + 1) receipt.1).length := by rwa [List.length_replicate]
  have hloop := indexLoop_none hlength (fun statement receipt _ => (⟨_, rfl⟩ : ∃ statement',
    (.ok (addReceipt receipt statement) : Except StatementError _) = .ok statement')) fuel 0 []
  rw [run_append, run_replicate_addReceipt]
  change (popSource ⟨⟨0 + 1, 0⟩, _⟩ fuel).run = none
  have hne : ¬ (0 + 1 : UInt32) = 0 := by decide
  rw [popSource, if_neg hne]
  dsimp only
  rw [deepCopyTo, copyTransactionStatements, if_neg (by decide), hloop]
  rfl

theorem not_restores_statements_sample :
    ∃ calls, SetsPrimaryIds (· ≤ 0) calls ∧
      ¬ Ends (fun fuel => ((init.run (calls ++ [.setSource ⟨0 + 1, 0⟩])).popSource fuel).run)
        (.ok ⟨⟨0, 0⟩, (init.run calls).statement⟩) := by
  refine ⟨List.replicate (4294967295 + 1) (.addReceipt sampleReceipt), fun source hsource => ?_, ?_⟩
  · cases List.eq_of_mem_replicate hsource
  · rintro ⟨enough, hends⟩
    have hnone := @popSource_none sampleReceipt 4294967295 (by omega) enough
    exact Option.some_ne_none _ ((hends enough le_rfl).symm.trans hnone)

end BlockStatementBuilder
end Catapult.Model
