import Catapult.Lib.Fuel
import Catapult.Lib.ThresholdFormula
import Catapult.Multisig.WellFormed
import Mathlib.Data.Finset.Sort

/-!
# Cosignatures of aggregates

The accounts that an embedded transaction requires have to be satisfied by the cosigners of the aggregate: an account
without cosignatories by itself, and a multisig account by enough of its cosignatories. This is a threshold formula,
which is unfolded from the cache when the graph of the cosignatories has no cycles, and both validators follow it: the
one for sufficient cosignatories evaluates it, and the one for eligible cosignatories marks its leaves.

`cosigners` are the addresses of the signer of the aggregate and its cosignatories. The validators recurse without a
bound, so they have fuel here.
-/

namespace Catapult.Multisig

inductive OperationType where
  | normal
  | removal
  | max

/-- What the validators look at. The plugin of a transaction's type knows the additional cosignatories; the ones that
a modification of a multisig account adds have to agree. -/
inductive EmbeddedTransactionData (UnresolvedAddress : Type) where
  | multisigAccountModification (addressAdditions addressDeletions : List UnresolvedAddress)
  | other (additionalRequiredCosignatories : List UnresolvedAddress)

structure EmbeddedTransaction (Key UnresolvedAddress : Type) where
  signerPublicKey : Key
  data : EmbeddedTransactionData UnresolvedAddress

structure ValidatorContext (Key Address UnresolvedAddress : Type) where
  multisigCache : MultisigCache Address
  toAddress : Key → Address
  resolve : UnresolvedAddress → Address

structure AggregateCosignaturesNotification (Key UnresolvedAddress : Type) where
  signerPublicKey : Key
  transactions : List (EmbeddedTransaction Key UnresolvedAddress)
  cosignatures : List Key

section Validators
variable {Key Address UnresolvedAddress : Type}

def EmbeddedTransaction.additionalRequiredCosignatories (transaction : EmbeddedTransaction Key UnresolvedAddress) :
    List UnresolvedAddress :=
  match transaction.data with
  | .multisigAccountModification addressAdditions _ => addressAdditions
  | .other additionalRequiredCosignatories => additionalRequiredCosignatories

def getOperationType (transaction : EmbeddedTransaction Key UnresolvedAddress) : OperationType :=
  match transaction.data with
  | .other _ => .normal
  | .multisigAccountModification addressAdditions addressDeletions =>
    if addressDeletions.length ≠ 0 then
      if addressAdditions.length ≠ 0 then .max else .removal
    else .normal

def getMinRequiredCosignatories (multisigEntry : MultisigEntry Address) : OperationType → Nat
  | .max => max multisigEntry.minRemoval multisigEntry.minApproval
  | .removal => multisigEntry.minRemoval
  | .normal => multisigEntry.minApproval

variable [LinearOrder Address] (context : ValidatorContext Key Address UnresolvedAddress)

def toCosigners (notification : AggregateCosignaturesNotification Key UnresolvedAddress) : Finset Address :=
  ((notification.signerPublicKey :: notification.cosignatures).map context.toAddress).toFinset

/-! ## Sufficient cosignatories -/

def findRequiredAddresses (transaction : EmbeddedTransaction Key UnresolvedAddress) : Finset Address :=
  Insert.insert (context.toAddress transaction.signerPublicKey)
    (transaction.additionalRequiredCosignatories.map context.resolve).toFinset

section Sufficient
variable (cosigners : Finset Address)

def isSatisfied (operationType : OperationType) : Nat → Address → Option Bool
  | 0, _ => none
  | fuel + 1, address =>
    match context.multisigCache address with
    | none => some (decide (address ∈ cosigners))
    | some multisigEntry =>
      if multisigEntry.cosignatoryAddresses = ∅ then
        some (decide (address ∈ cosigners))
      else do
        let numApprovers ← multisigEntry.cosignatoryAddresses.sort.foldlM (fun numApprovers cosignatoryAddress => do
          return numApprovers + if ← isSatisfied operationType fuel cosignatoryAddress then 1 else 0) 0
        return decide (getMinRequiredCosignatories multisigEntry operationType ≤ numApprovers)

def hasSufficientCosignatories (transaction : EmbeddedTransaction Key UnresolvedAddress) (fuel : Nat) : Option Bool :=
  (findRequiredAddresses context transaction).sort.allM
    (isSatisfied context cosigners (getOperationType transaction) fuel)

end Sufficient

/-! ## Eligible cosignatories -/

abbrev Eligibility (Address : Type) := Address → Option Bool

def initialEligibility (cosigners : Finset Address) : Eligibility Address := fun address =>
  if address ∈ cosigners then some false else none

def markEligible (eligibility : Eligibility Address) (address : Address) : Eligibility Address :=
  if (eligibility address).isSome then Function.update eligibility address (some true) else eligibility

def findEligibleCosignatories : Nat → Eligibility Address → Address → Option (Eligibility Address)
  | 0, _, _ => none
  | fuel + 1, eligibility, address =>
    match context.multisigCache address with
    | none => some (markEligible eligibility address)
    | some multisigEntry =>
      if multisigEntry.cosignatoryAddresses = ∅ then
        some (markEligible eligibility address)
      else
        multisigEntry.cosignatoryAddresses.sort.foldlM (findEligibleCosignatories fuel) eligibility

def findEligibleForTransaction (fuel : Nat) (eligibility : Eligibility Address)
    (transaction : EmbeddedTransaction Key UnresolvedAddress) : Option (Eligibility Address) := do
  let eligibility ← findEligibleCosignatories context fuel eligibility (context.toAddress transaction.signerPublicKey)
  (transaction.additionalRequiredCosignatories.map context.resolve).foldlM (findEligibleCosignatories context fuel)
    eligibility

def hasIneligibleCosignatories (notification : AggregateCosignaturesNotification Key UnresolvedAddress) (fuel : Nat) :
    Option Bool := do
  let cosigners := toCosigners context notification
  let eligibility ← notification.transactions.foldlM (findEligibleForTransaction context fuel)
    (initialEligibility cosigners)
  return decide (∃ address ∈ cosigners, eligibility address = some false)

end Validators

/-! ## The formula of an account -/

section Formula
variable {Address : Type}

/-- A cache, which has finitely many entries, without cycles in the graph of the cosignatories. -/
structure Acyclic (cache : MultisigCache Address) : Prop where
  finite : {address | (cache address).isSome}.Finite
  not_transGen : ∀ address, ¬Relation.TransGen (Cosigned cache) address address

theorem Acyclic.wellFounded {cache : MultisigCache Address} (h : Acyclic cache) :
    WellFounded fun cosignatory multisig => Cosigned cache multisig cosignatory := by
  apply wellFounded_of_not_transGen (h.finite.subset ?_) h.not_transGen
  rintro multisig ⟨cosignatory, hcosigned⟩
  cases hentry : cache multisig with
  | none => simp [Cosigned, cosignatories, hentry] at hcosigned
  | some entry => simp [hentry]

theorem Acyclic.induction {cache : MultisigCache Address} (h : Acyclic cache) {motive : Address → Prop}
    (leaf : ∀ address, cosignatories cache address = ∅ → motive address)
    (multisig : ∀ address multisigEntry, cache address = some multisigEntry → multisigEntry.cosignatoryAddresses ≠ ∅ →
      (∀ cosignatory ∈ multisigEntry.cosignatoryAddresses, motive cosignatory) → motive address)
    (address : Address) : motive address := by
  induction address using h.wellFounded.induction with
  | _ address ih =>
    cases hentry : cache address with
    | none => exact leaf address (by simp [cosignatories, hentry])
    | some multisigEntry =>
      have hcosignatories : cosignatories cache address = multisigEntry.cosignatoryAddresses := by
        simp [cosignatories, hentry]
      by_cases hempty : multisigEntry.cosignatoryAddresses = ∅
      · exact leaf address (hcosignatories.trans hempty)
      · refine multisig address multisigEntry hentry hempty fun cosignatory hmem => ih cosignatory ?_
        rwa [Cosigned, hcosignatories]

variable [DecidableEq Address] {cache : MultisigCache Address} (h : Acyclic cache) (operationType : OperationType)

/-- A leaf for an account without cosignatories, and a threshold for a multisig account. -/
noncomputable def thresholdFormula : Address → ThresholdFormula Address :=
  h.wellFounded.fix fun address below =>
    match cache address with
    | none => .leaf address
    | some multisigEntry =>
      if multisigEntry.cosignatoryAddresses = ∅ then .leaf address
      else .threshold (getMinRequiredCosignatories multisigEntry operationType) multisigEntry.cosignatoryAddresses
        fun cosignatory => if hbelow : cosignatory ∈ cosignatories cache address then below cosignatory hbelow
          else .leaf cosignatory

variable {operationType : OperationType} {address : Address} {multisigEntry : MultisigEntry Address}

theorem thresholdFormula_leaf (hleaf : cosignatories cache address = ∅) :
    thresholdFormula h operationType address = .leaf address := by
  rw [thresholdFormula, WellFounded.fix_eq]
  cases hentry : cache address with
  | none => rfl
  | some multisigEntry =>
    rw [cosignatories, hentry] at hleaf
    exact if_pos hleaf

section Multisig
variable (hentry : cache address = some multisigEntry) (hne : multisigEntry.cosignatoryAddresses ≠ ∅)
include hentry hne

theorem thresholdFormula_multisig :
    thresholdFormula h operationType address = .threshold (getMinRequiredCosignatories multisigEntry operationType)
      multisigEntry.cosignatoryAddresses fun cosignatory =>
        if cosignatory ∈ multisigEntry.cosignatoryAddresses then thresholdFormula h operationType cosignatory
        else .leaf cosignatory := by
  rw [thresholdFormula, WellFounded.fix_eq]
  have hcosignatories : cosignatories cache address = multisigEntry.cosignatoryAddresses := by
    simp [cosignatories, hentry]
  simp only [hentry, if_neg hne]
  congr 1
  funext cosignatory
  rw [dite_eq_ite, hcosignatories]

theorem holds_multisig {cosigners : Finset Address} :
    (thresholdFormula h operationType address).holds cosigners =
      decide (getMinRequiredCosignatories multisigEntry operationType ≤
        (multisigEntry.cosignatoryAddresses.filter fun cosignatory =>
          (thresholdFormula h operationType cosignatory).holds cosigners).card) := by
  rw [thresholdFormula_multisig h hentry hne, ThresholdFormula.holds]
  congr 3
  apply Finset.filter_congr
  intro cosignatory hmem
  rw [if_pos hmem]

theorem leaves_multisig :
    (thresholdFormula h operationType address).leaves =
      multisigEntry.cosignatoryAddresses.biUnion fun cosignatory =>
        (thresholdFormula h operationType cosignatory).leaves := by
  rw [thresholdFormula_multisig h hentry hne, ThresholdFormula.leaves]
  apply Finset.biUnion_congr rfl
  intro cosignatory hmem
  rw [if_pos hmem]

end Multisig

theorem mem_leaves_iff {leaf : Address} :
    leaf ∈ (thresholdFormula h operationType address).leaves ↔
      Relation.ReflTransGen (Cosigned cache) address leaf ∧ cosignatories cache leaf = ∅ := by
  induction address using h.induction with
  | leaf address hleaf =>
    rw [thresholdFormula_leaf h hleaf, ThresholdFormula.leaves, Finset.mem_singleton]
    constructor
    · rintro rfl
      exact ⟨.refl, hleaf⟩
    · rintro ⟨hpath, -⟩
      rcases Relation.ReflTransGen.cases_head hpath with heq | ⟨cosignatory, hcosigned, -⟩
      · exact heq.symm
      · rw [Cosigned, hleaf] at hcosigned
        exact absurd hcosigned (Finset.notMem_empty _)
  | multisig address multisigEntry hentry hne ih =>
    have hcosigned : ∀ cosignatory, Cosigned cache address cosignatory ↔
        cosignatory ∈ multisigEntry.cosignatoryAddresses := by simp [Cosigned, cosignatories, hentry]
    rw [leaves_multisig h hentry hne, Finset.mem_biUnion]
    constructor
    · rintro ⟨cosignatory, hmem, hleaf⟩
      obtain ⟨hpath, hempty⟩ := (ih cosignatory hmem).1 hleaf
      exact ⟨.head ((hcosigned _).2 hmem) hpath, hempty⟩
    · rintro ⟨hpath, hempty⟩
      rcases Relation.ReflTransGen.cases_head hpath with rfl | ⟨cosignatory, hfirst, hpath⟩
      · simp [cosignatories, hentry, hne] at hempty
      · have hmem := (hcosigned _).1 hfirst
        exact ⟨cosignatory, hmem, (ih cosignatory hmem).2 ⟨hpath, hempty⟩⟩

def Attainable (cache : MultisigCache Address) : Prop :=
  ∀ address multisigEntry, cache address = some multisigEntry → multisigEntry.cosignatoryAddresses ≠ ∅ →
    multisigEntry.minApproval ≤ multisigEntry.cosignatoryAddresses.card ∧
      multisigEntry.minRemoval ≤ multisigEntry.cosignatoryAddresses.card

theorem attainable_thresholdFormula (hattainable : Attainable cache) (address : Address) :
    (thresholdFormula h operationType address).Attainable := by
  induction address using h.induction with
  | leaf address hleaf =>
    rw [thresholdFormula_leaf h hleaf]
    trivial
  | multisig address multisigEntry hentry hne ih =>
    obtain ⟨hminApproval, hminRemoval⟩ := hattainable address multisigEntry hentry hne
    rw [thresholdFormula_multisig h hentry hne]
    refine ⟨?_, fun cosignatory hmem => ?_⟩
    · cases operationType with
      | normal => exact hminApproval
      | removal => exact hminRemoval
      | max => exact max_le hminRemoval hminApproval
    · simpa only [if_pos hmem] using ih cosignatory hmem

theorem WellFormed.acyclic {config : MultisigConfiguration} (h : WellFormed config cache)
    (hfinite : {address | (cache address).isSome}.Finite) : Acyclic cache :=
  ⟨hfinite, h.depth.not_transGen⟩

theorem WellFormed.attainable {config : MultisigConfiguration} (h : WellFormed config cache) : Attainable cache := by
  intro address multisigEntry hentry hne
  have hsettings := h.settings address multisigEntry hentry
  rw [MultisigEntry.SettingsInRange, if_neg hne] at hsettings
  exact ⟨hsettings.1.2, hsettings.2.2⟩

end Formula

/-! ## The validators follow the formula -/

section Spec
variable {Key Address UnresolvedAddress : Type} [LinearOrder Address]
  {context : ValidatorContext Key Address UnresolvedAddress} {cosigners : Finset Address} {address : Address}
  {operationType : OperationType} {multisigEntry : MultisigEntry Address} {eligibility : Eligibility Address}

theorem isSatisfied_leaf (hleaf : cosignatories context.multisigCache address = ∅) (fuel : Nat) :
    isSatisfied context cosigners operationType (fuel + 1) address = some (decide (address ∈ cosigners)) := by
  rw [isSatisfied]
  cases hentry : context.multisigCache address with
  | none => rfl
  | some multisigEntry =>
    rw [cosignatories, hentry] at hleaf
    exact if_pos hleaf

theorem findEligibleCosignatories_leaf (hleaf : cosignatories context.multisigCache address = ∅) (fuel : Nat) :
    findEligibleCosignatories context (fuel + 1) eligibility address = some (markEligible eligibility address) := by
  rw [findEligibleCosignatories]
  cases hentry : context.multisigCache address with
  | none => rfl
  | some multisigEntry =>
    rw [cosignatories, hentry] at hleaf
    exact if_pos hleaf

theorem foldl_count_eq_card (s : Finset Address) (p : Address → Bool) :
    s.sort.foldl (fun n a => n + if p a then 1 else 0) 0 = (s.filter fun a => p a).card := by
  have hcount : ∀ (l : List Address) (n : Nat), l.foldl (fun n a => n + if p a then 1 else 0) n = n + l.countP p := by
    intro l
    induction l with
    | nil => exact fun n => rfl
    | cons a l ih =>
      intro n
      rw [List.foldl_cons, ih, List.countP_cons]
      omega
  rw [hcount, Nat.zero_add, Finset.card_def, Finset.filter_val, ← Multiset.countP_eq_card_filter,
    ← Finset.sort_eq s (· ≤ ·), Multiset.coe_countP]
  simp

theorem isSatisfied_ends (h : Acyclic context.multisigCache) (address : Address) :
    Ends (fun fuel => isSatisfied context cosigners operationType fuel address)
      ((thresholdFormula h operationType address).holds cosigners) := by
  induction address using h.induction with
  | leaf address hleaf =>
    rw [thresholdFormula_leaf h hleaf]
    exact .of_succ (.of_forall fun _ => rfl) (isSatisfied_leaf hleaf)
  | multisig address multisigEntry hentry hne ih =>
    rw [holds_multisig h hentry hne, ← foldl_count_eq_card]
    have hbelow : ∀ cosignatory ∈ multisigEntry.cosignatoryAddresses.sort, ∀ numApprovers : Nat,
        Ends (fun fuel => do
          return numApprovers + if ← isSatisfied context cosigners operationType fuel cosignatory then 1 else 0)
          (numApprovers + if (thresholdFormula h operationType cosignatory).holds cosigners then 1 else 0) := by
      intro cosignatory hmem numApprovers
      exact (ih cosignatory ((Finset.mem_sort _).1 hmem)).map
        (k := fun approves => numApprovers + if approves then 1 else 0)
    have hcount := Ends.foldlM _ 0 hbelow
    apply (hcount.map (k := fun numApprovers =>
      decide (getMinRequiredCosignatories multisigEntry operationType ≤ numApprovers))).of_succ
    intro fuel
    rw [isSatisfied, hentry]
    exact if_neg hne

noncomputable def transactionFormula (context : ValidatorContext Key Address UnresolvedAddress)
    (h : Acyclic context.multisigCache) (transaction : EmbeddedTransaction Key UnresolvedAddress) :
    ThresholdFormula Address :=
  .threshold (findRequiredAddresses context transaction).card (findRequiredAddresses context transaction)
    (thresholdFormula h (getOperationType transaction))

variable (h : Acyclic context.multisigCache) (transaction : EmbeddedTransaction Key UnresolvedAddress)

theorem hasSufficientCosignatories_ends :
    Ends (hasSufficientCosignatories context cosigners transaction)
      ((transactionFormula context h transaction).holds cosigners) := by
  have hall : (transactionFormula context h transaction).holds cosigners =
      (findRequiredAddresses context transaction).sort.all fun address =>
        (thresholdFormula h (getOperationType transaction) address).holds cosigners := by
    rw [Bool.eq_iff_iff, List.all_eq_true, transactionFormula, ThresholdFormula.holds, decide_eq_true_eq,
      (Finset.card_filter_le _ _).ge_iff_eq, Finset.card_filter_eq_iff]
    simp only [Finset.mem_sort]
  rw [hall]
  exact .allM _ fun address _ => isSatisfied_ends h address

/-- Some of the cosigners are known to be eligible. -/
def markAll (eligible : Finset Address) (eligibility : Eligibility Address) : Eligibility Address := fun address =>
  if address ∈ eligible then (eligibility address).map fun _ => true else eligibility address

theorem markEligible_eq : markEligible eligibility address = markAll {address} eligibility := by
  funext other
  rw [markEligible, markAll]
  cases heq : eligibility address with
  | none =>
    by_cases hother : other = address
    · simp [hother, heq]
    · simp [hother]
  | some known =>
    by_cases hother : other = address
    · simp [hother, heq]
    · simp [hother]

theorem markAll_markAll {s t : Finset Address} : markAll s (markAll t eligibility) = markAll (t ∪ s) eligibility := by
  funext address
  by_cases hs : address ∈ s <;> by_cases ht : address ∈ t <;> simp [markAll, hs, ht]

theorem foldl_markAll (l : List Address) (f : Address → Finset Address) (eligibility : Eligibility Address) :
    l.foldl (fun eligibility address => markAll (f address) eligibility) eligibility =
      markAll (l.toFinset.biUnion f) eligibility := by
  induction l generalizing eligibility with
  | nil =>
    funext address
    simp [markAll]
  | cons a l ih => rw [List.foldl_cons, ih, markAll_markAll, List.toFinset_cons, Finset.biUnion_insert]

theorem findEligibleCosignatories_ends (operationType : OperationType) (eligibility : Eligibility Address)
    (address : Address) :
    Ends (fun fuel => findEligibleCosignatories context fuel eligibility address)
      (markAll (thresholdFormula h operationType address).leaves eligibility) := by
  induction address using h.induction generalizing eligibility with
  | leaf address hleaf =>
    rw [thresholdFormula_leaf h hleaf, ThresholdFormula.leaves, ← markEligible_eq]
    exact .of_succ (.of_forall fun _ => rfl) (findEligibleCosignatories_leaf hleaf)
  | multisig address multisigEntry hentry hne ih =>
    have hfold := Ends.foldlM multisigEntry.cosignatoryAddresses.sort eligibility
      fun cosignatory hmem eligibility => ih cosignatory ((Finset.mem_sort _).1 hmem) eligibility
    rw [foldl_markAll, Finset.sort_toFinset, ← leaves_multisig h hentry hne] at hfold
    apply hfold.of_succ
    intro fuel
    rw [findEligibleCosignatories, hentry]
    exact if_neg hne

theorem findEligibleForTransaction_ends (eligibility : Eligibility Address) :
    Ends (fun fuel => findEligibleForTransaction context fuel eligibility transaction)
      (markAll (transactionFormula context h transaction).leaves eligibility) := by
  have hfind := findEligibleCosignatories_ends h (getOperationType transaction)
  have hends := (hfind eligibility (context.toAddress transaction.signerPublicKey)).bind
    (k := fun fuel eligibility => (transaction.additionalRequiredCosignatories.map context.resolve).foldlM
      (findEligibleCosignatories context fuel) eligibility)
    (.foldlM _ _ fun address _ eligibility => hfind eligibility address)
  have hleaves : (transactionFormula context h transaction).leaves =
      (thresholdFormula h (getOperationType transaction) (context.toAddress transaction.signerPublicKey)).leaves ∪
        (transaction.additionalRequiredCosignatories.map context.resolve).toFinset.biUnion fun address =>
          (thresholdFormula h (getOperationType transaction) address).leaves := Finset.biUnion_insert ..
  rwa [foldl_markAll, markAll_markAll, ← hleaves] at hends

theorem hasIneligibleCosignatories_ends (notification : AggregateCosignaturesNotification Key UnresolvedAddress) :
    Ends (hasIneligibleCosignatories context notification)
      (decide (∃ address ∈ toCosigners context notification, ∀ transaction ∈ notification.transactions,
        address ∉ (transactionFormula context h transaction).leaves)) := by
  have hfold := Ends.foldlM notification.transactions (initialEligibility (toCosigners context notification))
    fun transaction _ eligibility => findEligibleForTransaction_ends h transaction eligibility
  have hmarks : ∀ (transactions : List (EmbeddedTransaction Key UnresolvedAddress)) (eligibility : Eligibility Address)
      (address : Address), transactions.foldl (fun eligibility transaction =>
        markAll (transactionFormula context h transaction).leaves eligibility) eligibility address = some false ↔
          eligibility address = some false ∧
            ∀ transaction ∈ transactions, address ∉ (transactionFormula context h transaction).leaves := by
    intro transactions
    induction transactions with
    | nil => simp
    | cons transaction transactions ih =>
      intro eligibility address
      rw [List.foldl_cons, ih, List.forall_mem_cons, ← and_assoc]
      refine and_congr_left fun _ => ?_
      by_cases hleaf : address ∈ (transactionFormula context h transaction).leaves <;> simp [markAll, hleaf]
  have hends := hfold.map (k := fun eligibility =>
    decide (∃ address ∈ toCosigners context notification, eligibility address = some false))
  simp only [hmarks] at hends
  refine (congrArg _ (decide_eq_decide.2 ?_)).mp hends
  simp +contextual [initialEligibility]

/-- A cosigner is ineligible when it has cosignatories itself, or no account that a transaction requires leads to it. -/
theorem hasIneligibleCosignatories_iff (h : Acyclic context.multisigCache)
    (notification : AggregateCosignaturesNotification Key UnresolvedAddress) :
    ∃ result, Ends (hasIneligibleCosignatories context notification) result ∧
      (result = true ↔ ∃ address ∈ toCosigners context notification, ∀ transaction ∈ notification.transactions,
        ∀ required ∈ findRequiredAddresses context transaction,
          Relation.ReflTransGen (Cosigned context.multisigCache) required address →
            cosignatories context.multisigCache address ≠ ∅) := by
  refine ⟨_, hasIneligibleCosignatories_ends h notification, ?_⟩
  rw [decide_eq_true_iff]
  simp only [transactionFormula, ThresholdFormula.leaves, Finset.mem_biUnion, not_exists, not_and,
    mem_leaves_iff, ne_eq]

/-- The result is the formula of the transaction, which is monotone and only depends on the eligible cosigners. It is
true when all leaves have cosigned, unless an account requires more cosignatories than it has. -/
theorem hasSufficientCosignatories_spec :
    (∀ cosigners, Ends (hasSufficientCosignatories context cosigners transaction)
      ((transactionFormula context h transaction).holds cosigners)) ∧
    (∀ cosigners cosigners', cosigners ⊆ cosigners' →
      Ends (hasSufficientCosignatories context cosigners transaction) true →
        Ends (hasSufficientCosignatories context cosigners' transaction) true) ∧
    (∀ cosigners, ∃ eligibility,
      Ends (fun fuel => findEligibleForTransaction context fuel (initialEligibility cosigners) transaction)
        eligibility ∧
      ∀ result, Ends (hasSufficientCosignatories context
          (cosigners.filter fun address => eligibility address = some true) transaction) result ↔
        Ends (hasSufficientCosignatories context cosigners transaction) result) ∧
    (∀ cosigners, Attainable context.multisigCache →
      (∀ address ∈ findRequiredAddresses context transaction, ∀ leaf,
        Relation.ReflTransGen (Cosigned context.multisigCache) address leaf →
          cosignatories context.multisigCache leaf = ∅ → leaf ∈ cosigners) →
      Ends (hasSufficientCosignatories context cosigners transaction) true) := by
  have hends : ∀ cosigners, Ends (hasSufficientCosignatories context cosigners transaction)
      ((transactionFormula context h transaction).holds cosigners) :=
    fun _ => hasSufficientCosignatories_ends h transaction
  refine ⟨hends, ?_, ?_, ?_⟩
  · intro cosigners cosigners' hsub htrue
    have hholds := (hends cosigners).unique htrue
    have hholds' := ThresholdFormula.holds_mono hsub hholds
    exact hholds' ▸ hends cosigners'
  · intro cosigners
    refine ⟨_, findEligibleForTransaction_ends h transaction _, fun result => ?_⟩
    have heligible : (cosigners.filter fun address => markAll (transactionFormula context h transaction).leaves
        (initialEligibility cosigners) address = some true) =
          cosigners ∩ (transactionFormula context h transaction).leaves := by
      ext address
      rw [Finset.mem_filter, Finset.mem_inter]
      refine and_congr_right fun hmem => ?_
      by_cases hleaf : address ∈ (transactionFormula context h transaction).leaves <;>
        simp [markAll, initialEligibility, hleaf, hmem]
    rw [(hends _).iff_eq, (hends _).iff_eq, heligible, ThresholdFormula.holds_inter_leaves]
  · intro cosigners hattainable hleaves
    have hformula : (transactionFormula context h transaction).Attainable :=
      ⟨le_rfl, fun address _ => attainable_thresholdFormula h hattainable address⟩
    have hsub : (transactionFormula context h transaction).leaves ⊆ cosigners := by
      intro leaf hleaf
      obtain ⟨address, hmem, hleaf⟩ := Finset.mem_biUnion.1 hleaf
      obtain ⟨hpath, hempty⟩ := (mem_leaves_iff h).1 hleaf
      exact hleaves address hmem leaf hpath hempty
    exact ThresholdFormula.holds_of_leaves_subset hformula hsub ▸ hends cosigners

end Spec

def sampleCache : MultisigCache Nat
  | 1 => some ⟨{2, 3}, ∅, 2, 1⟩
  | 2 => some ⟨∅, {1}, 0, 0⟩
  | 3 => some ⟨∅, {1}, 0, 0⟩
  | _ => none

theorem cosigned_sampleCache {a b : Nat} : Cosigned sampleCache a b ↔ a = 1 ∧ (b = 2 ∨ b = 3) := by
  rw [Cosigned, cosignatories, sampleCache.eq_def]
  split <;> simp_all

theorem acyclic_sampleCache : Acyclic sampleCache where
  finite := by
    apply (Finset.finite_toSet {1, 2, 3}).subset
    intro address hsome
    rw [Set.mem_ofPred_eq, sampleCache.eq_def] at hsome
    split at hsome <;> simp_all
  not_transGen := by
    intro address hcycle
    obtain ⟨b, hfirst, -⟩ := Relation.TransGen.head'_iff.1 hcycle
    obtain ⟨c, -, hlast⟩ := Relation.TransGen.tail'_iff.1 hcycle
    have h1 := (cosigned_sampleCache.1 hfirst).1
    have h2 := (cosigned_sampleCache.1 hlast).2
    omega

def sampleContext : ValidatorContext Nat Nat Nat := ⟨sampleCache, id, id⟩

theorem hasSufficientCosignatories_sample :
    Ends (hasSufficientCosignatories sampleContext {2, 3} ⟨1, .other []⟩) true := by
  have hattainable : Attainable sampleCache := by
    intro address multisigEntry hentry hne
    rw [sampleCache.eq_def] at hentry
    split at hentry <;> cases hentry
    · decide
    · exact absurd rfl hne
    · exact absurd rfl hne
  have hspec := @hasSufficientCosignatories_spec Nat Nat Nat _ sampleContext acyclic_sampleCache ⟨1, .other []⟩
  apply hspec.2.2.2
  · exact hattainable
  · intro address hmem leaf hpath hempty
    rw [show findRequiredAddresses sampleContext ⟨1, .other []⟩ = {1} from rfl, Finset.mem_singleton] at hmem
    rcases Relation.ReflTransGen.cases_tail hpath with rfl | ⟨b, -, hlast⟩
    · rw [hmem] at hempty
      exact absurd hempty (by decide)
    · simpa using (cosigned_sampleCache.1 hlast).2

theorem hasIneligibleCosignatories_sample :
    Ends (hasIneligibleCosignatories sampleContext ⟨1, [⟨1, .other []⟩], [2, 3]⟩) true := by
  have hacyclic : Acyclic sampleContext.multisigCache := acyclic_sampleCache
  obtain ⟨result, hends, hiff⟩ := hasIneligibleCosignatories_iff hacyclic
    (⟨1, [⟨1, .other []⟩], [2, 3]⟩ : AggregateCosignaturesNotification Nat Nat)
  rw [← hiff.2 ⟨1, by decide, fun _ _ _ _ _ => by decide⟩]
  exact hends

end Catapult.Multisig
