import Catapult.Chain.CompareChains
import Catapult.Currency.AccountStates
import Mathlib.Algebra.BigOperators.Intervals

/-!
# Inflation and its configuration (`InflationCalculator`, `ValidateConfiguration`)

The inflation of a block is the amount of the last entry at or before its height. A configuration is admitted when the
last entry is zero, so that all inflation sums up, and when that sum and the initial currency are at most the largest
amount of a mosaic.
-/

namespace Catapult.Currency
open Catapult.Chain (add64 sub64 add64_eq)

structure InflationCalculator where
  inflationMap : List (Nat × Nat)
  sorted : inflationMap.Pairwise fun a b => a.1 < b.1
  positive : ∀ entry ∈ inflationMap, 0 < entry.1
  bounded : ∀ entry ∈ inflationMap, entry.1 < 2 ^ 64 ∧ entry.2 < 2 ^ 64

namespace InflationCalculator

/-- The loop of `getSpotAmount`, which ends at the first entry of a later height. -/
def spotAmount (height amount : Nat) : List (Nat × Nat) → Nat
  | [] => amount
  | entry :: entries => if height < entry.1 then amount else spotAmount height entry.2 entries

def getSpotAmount (calculator : InflationCalculator) (height : Nat) : Nat :=
  spotAmount height 0 calculator.inflationMap

/-- The loop of `sumAll`, from the last entry that was read and the total up to it. -/
def sumEntries (total : Nat) (current : Nat × Nat) : List (Nat × Nat) → Option Nat
  | [] => if current.2 = 0 then some total else none
  | entry :: entries =>
    let numBlocks := sub64 entry.1 current.1
    let summand := current.2 * numBlocks
    if numBlocks ≠ 0 ∧ (2 ^ 64 - 1) / numBlocks < current.2 then none
    else if 2 ^ 64 - 1 - summand < total then none
    else sumEntries (total + summand) entry entries

def sumAll (calculator : InflationCalculator) : Option Nat := sumEntries 0 (1, 0) calculator.inflationMap

/-- The inflation of the heights `1, …, height`. -/
def upTo (calculator : InflationCalculator) (height : Nat) : Nat :=
  ∑ i ∈ Finset.range height, calculator.getSpotAmount (i + 1)

theorem sum_spotAmount_before (current entry : Nat × Nat) (entries : List (Nat × Nat)) {height : Nat}
    (hheight : height ≤ entry.1) : ∑ i ∈ Finset.Ico current.1 height, spotAmount i current.2 (entry :: entries) =
      current.2 * (height - current.1) := by
  have hconst : ∀ i ∈ Finset.Ico current.1 height, spotAmount i current.2 (entry :: entries) = current.2 := by
    intro i hi
    rw [spotAmount, if_pos (lt_of_lt_of_le (Finset.mem_Ico.1 hi).2 hheight)]
  rw [Finset.sum_const_nat hconst, Nat.card_Ico, Nat.mul_comm]

theorem sum_spotAmount_after (amount : Nat) (entry : Nat × Nat) (entries : List (Nat × Nat)) (height : Nat) :
    ∑ i ∈ Finset.Ico entry.1 height, spotAmount i amount (entry :: entries) =
      ∑ i ∈ Finset.Ico entry.1 height, spotAmount i entry.2 entries := by
  refine Finset.sum_congr rfl fun i hi => ?_
  rw [spotAmount, if_neg (Nat.not_lt_of_le (Finset.mem_Ico.1 hi).1)]

theorem sum_spotAmount_cons {current entry : Nat × Nat} (hle : current.1 ≤ entry.1) (entries : List (Nat × Nat))
    {height : Nat} (hheight : entry.1 ≤ height) :
    ∑ i ∈ Finset.Ico current.1 height, spotAmount i current.2 (entry :: entries) =
      current.2 * (entry.1 - current.1) + ∑ i ∈ Finset.Ico entry.1 height, spotAmount i entry.2 entries := by
  rw [← Finset.sum_Ico_consecutive _ hle hheight, sum_spotAmount_before current entry entries le_rfl,
    sum_spotAmount_after]

theorem sum_spotAmount_le {total total' : Nat} {current : Nat × Nat} {entries : List (Nat × Nat)}
    (hsorted : (current :: entries).Pairwise fun a b => a.1 ≤ b.1) (hbound : ∀ entry ∈ entries, entry.1 < 2 ^ 64)
    (h : sumEntries total current entries = some total') (height : Nat) :
    total + ∑ i ∈ Finset.Ico current.1 height, spotAmount i current.2 entries ≤ total' := by
  induction entries generalizing total current with
  | nil =>
    unfold sumEntries at h
    split at h
    · rename_i hzero
      cases h
      simp [spotAmount, hzero]
    · cases h
  | cons entry entries ih =>
    have hle : current.1 ≤ entry.1 := (List.pairwise_cons.1 hsorted).1 entry List.mem_cons_self
    have hlt : entry.1 < 2 ^ 64 := hbound entry List.mem_cons_self
    have hblocks : sub64 entry.1 current.1 = entry.1 - current.1 := Chain.sub64_eq hlt hle
    simp only [sumEntries, hblocks] at h
    split at h
    · cases h
    · split at h
      · cases h
      · have hrest := ih (List.pairwise_cons.1 hsorted).2 (fun e he => hbound e (List.mem_cons_of_mem _ he)) h
        rcases Nat.le_total height entry.1 with hheight | hheight
        · rw [sum_spotAmount_before current entry entries hheight]
          have hmul : current.2 * (height - current.1) ≤ current.2 * (entry.1 - current.1) :=
            Nat.mul_le_mul_left _ (by omega)
          omega
        · rw [sum_spotAmount_cons hle entries hheight]
          omega

theorem sumEntries_lt {total total' : Nat} {current : Nat × Nat} {entries : List (Nat × Nat)} (htotal : total < 2 ^ 64)
    (h : sumEntries total current entries = some total') : total' < 2 ^ 64 := by
  induction entries generalizing total current with
  | nil =>
    unfold sumEntries at h
    split at h
    · cases h
      exact htotal
    · cases h
  | cons entry entries ih =>
    dsimp only [sumEntries] at h
    split at h
    · cases h
    · rename_i hblocks
      split at h
      · cases h
      · rename_i hroom
        refine ih ?_ h
        have hsummand : current.2 * sub64 entry.1 current.1 ≤ 2 ^ 64 - 1 := by
          by_cases hzero : sub64 entry.1 current.1 = 0
          · simp [hzero]
          · refine (Nat.le_div_iff_mul_le (Nat.pos_of_ne_zero hzero)).1 ?_
            exact Nat.le_of_not_lt fun hlt => hblocks ⟨hzero, hlt⟩
        omega

theorem upTo_le_sumAll {calculator : InflationCalculator} {total : Nat} (h : calculator.sumAll = some total)
    (height : Nat) : calculator.upTo height ≤ total := by
  have hsorted : ((1, 0) :: calculator.inflationMap).Pairwise fun a b => a.1 ≤ b.1 := by
    refine List.pairwise_cons.2 ⟨fun entry he => calculator.positive entry he, ?_⟩
    exact calculator.sorted.imp fun hlt => Nat.le_of_lt hlt
  have hle := sum_spotAmount_le hsorted (fun e he => (calculator.bounded e he).1) h (height + 1)
  rw [Finset.sum_Ico_eq_sum_range, Nat.zero_add] at hle
  simp only [Nat.add_comm 1, Nat.add_sub_cancel] at hle
  exact hle

end InflationCalculator

/-- An address with overrides up to an end height each. -/
structure HeightDependentAddress (Address : Type) where
  defaultAddress : Address
  addresses : List (Address × Nat)

def HeightDependentAddress.get {Address : Type} (address : HeightDependentAddress Address) (height : Nat) : Address :=
  if 1 ≤ height then
    match address.addresses.find? (height < ·.2) with
    | some pair => pair.1
    | none => address.defaultAddress
  else address.defaultAddress

structure Configuration (Address MosaicId : Type) where
  currencyMosaicId : MosaicId
  importanceGrouping : Nat
  maxRollbackBlocks : Nat
  votingSetGrouping : Nat
  importanceActivityPercentage : Nat
  harvestBeneficiaryPercentage : Nat
  harvestNetworkPercentage : Nat
  harvestNetworkFeeSinkAddress : HeightDependentAddress Address
  initialCurrencyAtomicUnits : Nat
  maxMosaicAtomicUnits : Nat
  maxDifficultyBlocks : Nat
  defaultDynamicFeeMultiplier : Nat
  feeDebitAppliedLastForkHeight : Nat
  inflation : InflationCalculator

inductive ValidationError where
  | importanceGrouping
  | harvestPercentages
  | importanceActivityPercentage
  | votingSetGrouping
  | inflation
  | maxMosaicAtomicUnits
  deriving DecidableEq

variable {Address MosaicId : Type}

def validateConfiguration (config : Configuration Address MosaicId) : Except ValidationError Unit :=
  if 2 * config.importanceGrouping % 2 ^ 64 ≤ config.maxRollbackBlocks then .error .importanceGrouping
  else if 100 < config.harvestBeneficiaryPercentage + config.harvestNetworkPercentage then .error .harvestPercentages
  else if 99 < config.importanceActivityPercentage then .error .importanceActivityPercentage
  else if config.votingSetGrouping % config.importanceGrouping ≠ 0 then .error .votingSetGrouping
  else
    match config.inflation.sumAll with
    | none => .error .inflation
    | some totalInflation =>
      let totalCurrency := add64 config.initialCurrencyAtomicUnits totalInflation
      if totalCurrency < config.initialCurrencyAtomicUnits ∨ config.maxMosaicAtomicUnits < totalCurrency then
        .error .maxMosaicAtomicUnits
      else .ok ()

variable {config : Configuration Address MosaicId}

theorem percentages_of_valid (h : validateConfiguration config = .ok ()) :
    config.harvestBeneficiaryPercentage + config.harvestNetworkPercentage ≤ 100 := by
  unfold validateConfiguration at h
  split at h
  · cases h
  · split at h
    · cases h
    · omega

/-- The currency never exceeds the largest amount of a mosaic, nor 64 bits. -/
theorem currency_of_valid (h : validateConfiguration config = .ok ()) (height : Nat) :
    config.initialCurrencyAtomicUnits + config.inflation.upTo height < 2 ^ 64 ∧
      config.initialCurrencyAtomicUnits + config.inflation.upTo height ≤ config.maxMosaicAtomicUnits := by
  unfold validateConfiguration at h
  split at h
  · cases h
  split at h
  · cases h
  split at h
  · cases h
  split at h
  · cases h
  split at h
  · cases h
  · rename_i totalInflation hsum
    dsimp only at h
    split at h
    · cases h
    · rename_i hroom
      obtain ⟨hwrap, hmax⟩ := not_or.1 hroom
      have hle := InflationCalculator.upTo_le_sumAll hsum height
      have hlt : totalInflation < 2 ^ 64 := InflationCalculator.sumEntries_lt (by decide) hsum
      unfold add64 at hwrap hmax
      omega

/-!
## The sums of the inflation (`InflationCalculator.cpp`)

The cumulative amount is the sum of the spot amounts modulo `2 ^ 64`, so it is the sum when that fits. Only `sumAll`
guards against overflows: it has a result exactly when the last amount is zero and the sum of all entries fits.
-/

namespace InflationCalculator

def empty : InflationCalculator := ⟨[], List.Pairwise.nil, by simp, by simp⟩

theorem lt_of_last_lt (calculator : InflationCalculator) {height : Nat}
    (h : ∀ last ∈ calculator.inflationMap.getLast?, last.1 < height) :
    ∀ entry ∈ calculator.inflationMap, entry.1 < height := by
  intro entry hentry
  obtain ⟨init, last, hmap⟩ := (List.eq_nil_or_concat' calculator.inflationMap).resolve_left (List.ne_nil_of_mem hentry)
  have hlast : last.1 < height := h last (by rw [hmap, List.getLast?_concat]; rfl)
  have hsorted := calculator.sorted
  rw [hmap] at hentry hsorted
  rcases List.mem_append.1 hentry with hinit | hsame
  · exact ((List.pairwise_append.1 hsorted).2.2 entry hinit last (List.mem_singleton_self last)).trans hlast
  · rwa [List.mem_singleton.1 hsame]

/-- It is an error when the height is zero, or not above the last one. -/
def add (calculator : InflationCalculator) (height amount : UInt64) : Option InflationCalculator :=
  if h : height ≠ 0 ∧ ∀ last ∈ calculator.inflationMap.getLast?, last.1 < height.toNat then
    some {
      inflationMap := calculator.inflationMap ++ [(height.toNat, amount.toNat)]
      sorted := List.pairwise_append.2 ⟨calculator.sorted, List.pairwise_singleton _ _, fun a ha b hb => by
        rw [List.mem_singleton.1 hb]
        exact calculator.lt_of_last_lt h.2 a ha⟩
      positive := fun entry hentry => by
        rcases List.mem_append.1 hentry with hold | hnew
        · exact calculator.positive entry hold
        · rw [List.mem_singleton.1 hnew]
          exact Nat.pos_of_ne_zero fun hzero => h.1 (UInt64.toNat_inj.1 hzero)
      bounded := fun entry hentry => by
        rcases List.mem_append.1 hentry with hold | hnew
        · exact calculator.bounded entry hold
        · rw [List.mem_singleton.1 hnew]
          exact ⟨height.toNat_lt, amount.toNat_lt⟩ }
  else none

theorem add_inflationMap {calculator calculator' : InflationCalculator} {height amount : UInt64}
    (h : calculator.add height amount = some calculator') :
    calculator'.inflationMap = calculator.inflationMap ++ [(height.toNat, amount.toNat)] := by
  rw [add] at h
  split at h
  · cases h
    rfl
  · cases h

/-- The loop of `getCumulativeAmount`, with the total and the entry that it ends with. -/
def cumulativeEntries (height total : Nat) (current : Nat × Nat) : List (Nat × Nat) → Nat × (Nat × Nat)
  | [] => (total, current)
  | entry :: entries =>
    let numBlocks := sub64 (if height < entry.1 then height else entry.1) current.1
    let total := add64 total (current.2 * numBlocks % 2 ^ 64)
    if height ≤ entry.1 then (total, entry) else cumulativeEntries height total entry entries

def finishCumulative (height : Nat) (result : Nat × (Nat × Nat)) : Nat :=
  if result.2.1 < height then add64 result.1 (result.2.2 * sub64 height result.2.1 % 2 ^ 64) else result.1

def getCumulativeAmount (calculator : InflationCalculator) (height : Nat) : Nat :=
  if height = 0 then 0 else finishCumulative height (cumulativeEntries height 0 (1, 0) calculator.inflationMap)

theorem finishCumulative_eq {height total : Nat} {current : Nat × Nat} {entries : List (Nat × Nat)}
    (hsorted : (current :: entries).Pairwise fun a b => a.1 ≤ b.1) (hbound : ∀ entry ∈ entries, entry.1 < 2 ^ 64)
    (hheight : current.1 ≤ height) (hlt : height < 2 ^ 64) (htotal : total < 2 ^ 64) :
    finishCumulative height (cumulativeEntries height total current entries) =
      (total + ∑ i ∈ Finset.Ico current.1 height, spotAmount i current.2 entries) % 2 ^ 64 := by
  induction entries generalizing total current with
  | nil =>
    have hsum : ∑ i ∈ Finset.Ico current.1 height, spotAmount i current.2 [] =
        current.2 * (height - current.1) := by
      have hconst : ∀ i ∈ Finset.Ico current.1 height, spotAmount i current.2 [] = current.2 := fun _ _ => rfl
      rw [Finset.sum_const_nat hconst, Nat.card_Ico, Nat.mul_comm]
    rw [cumulativeEntries, finishCumulative, hsum, Chain.sub64_eq hlt hheight]
    split
    · rw [add64, Nat.add_mod_mod]
    · case isFalse hend =>
      have hzero : height - current.1 = 0 := by
        dsimp only at hend
        omega
      rw [hzero, Nat.mul_zero, Nat.add_zero, Nat.mod_eq_of_lt htotal]
  | cons entry entries ih =>
    obtain ⟨hcurrent, hrest⟩ := List.pairwise_cons.1 hsorted
    have hle : current.1 ≤ entry.1 := hcurrent entry List.mem_cons_self
    have hentry : entry.1 < 2 ^ 64 := hbound entry List.mem_cons_self
    rw [cumulativeEntries]
    by_cases hlast : height ≤ entry.1
    · have hmin : (if height < entry.1 then height else entry.1) = height := by
        split <;> omega
      rw [if_pos hlast, finishCumulative, if_neg (Nat.not_lt_of_le hlast), hmin, Chain.sub64_eq hlt hheight,
        sum_spotAmount_before current entry entries hlast, add64, Nat.add_mod_mod]
    · have hentryLe : entry.1 ≤ height := Nat.le_of_not_le hlast
      rw [if_neg hlast, if_neg (Nat.not_lt_of_le hentryLe), Chain.sub64_eq hentry hle,
        add64, ih hrest (fun e he => hbound e (List.mem_cons_of_mem _ he)) hentryLe (Nat.mod_lt _ (by decide)),
        sum_spotAmount_cons hle entries hentryLe, Nat.add_mod_mod, Nat.mod_add_mod, Nat.add_assoc]

theorem sorted_from_one (calculator : InflationCalculator) :
    ((1, 0) :: calculator.inflationMap).Pairwise fun a b => a.1 ≤ b.1 :=
  List.pairwise_cons.2 ⟨fun entry hentry => calculator.positive entry hentry, calculator.sorted.imp Nat.le_of_lt⟩

theorem getCumulativeAmount_eq (calculator : InflationCalculator) {height : Nat} (hheight : height < 2 ^ 64) :
    calculator.getCumulativeAmount height =
      (∑ i ∈ Finset.Ico 1 height, calculator.getSpotAmount i) % 2 ^ 64 := by
  rw [getCumulativeAmount]
  split
  · case isTrue hzero =>
    rw [hzero]
    rfl
  · case isFalse hpos =>
    rw [finishCumulative_eq calculator.sorted_from_one (fun e he => (calculator.bounded e he).1)
      (Nat.pos_of_ne_zero hpos) hheight (by decide), Nat.zero_add]
    rfl

def exactSum (current : Nat × Nat) : List (Nat × Nat) → Nat
  | [] => 0
  | entry :: entries => current.2 * (entry.1 - current.1) + exactSum entry entries

def lastAmount (amount : Nat) : List (Nat × Nat) → Nat
  | [] => amount
  | entry :: entries => lastAmount entry.2 entries

theorem sumEntries_eq_some_iff {total total' : Nat} {current : Nat × Nat} {entries : List (Nat × Nat)}
    (hsorted : (current :: entries).Pairwise fun a b => a.1 ≤ b.1) (hbound : ∀ entry ∈ entries, entry.1 < 2 ^ 64)
    (htotal : total < 2 ^ 64) :
    sumEntries total current entries = some total' ↔
      lastAmount current.2 entries = 0 ∧ total + exactSum current entries < 2 ^ 64 ∧
        total' = total + exactSum current entries := by
  induction entries generalizing total current with
  | nil =>
    rw [sumEntries, lastAmount, exactSum, Nat.add_zero]
    split
    · case isTrue hzero =>
      rw [Option.some_inj, and_iff_right hzero, and_iff_right htotal, eq_comm]
    · case isFalse hzero => simp [hzero]
  | cons entry entries ih =>
    obtain ⟨hcurrent, hrest⟩ := List.pairwise_cons.1 hsorted
    have hle : current.1 ≤ entry.1 := hcurrent entry List.mem_cons_self
    have hentry : entry.1 < 2 ^ 64 := hbound entry List.mem_cons_self
    rw [sumEntries, Chain.sub64_eq hentry hle, lastAmount, exactSum]
    by_cases hfits : total + current.2 * (entry.1 - current.1) < 2 ^ 64
    · have hsummand : ¬ (entry.1 - current.1 ≠ 0 ∧ (2 ^ 64 - 1) / (entry.1 - current.1) < current.2) := by
        rintro ⟨hne, hlt⟩
        have hmul := (Nat.div_lt_iff_lt_mul (Nat.pos_of_ne_zero hne)).1 hlt
        omega
      rw [if_neg hsummand, if_neg (by omega), ih hrest (fun e he => hbound e (List.mem_cons_of_mem _ he)) hfits,
        Nat.add_assoc]
    · -- one of the guards fails, and the sum is at least the summand
      refine iff_of_false ?_ fun h => hfits (by omega)
      split
      · exact Option.some_ne_none _ ∘ Eq.symm
      · case isFalse hsummand =>
        have hle' : current.2 * (entry.1 - current.1) ≤ 2 ^ 64 - 1 := by
          by_cases hzero : entry.1 - current.1 = 0
          · simp [hzero]
          · exact (Nat.le_div_iff_mul_le (Nat.pos_of_ne_zero hzero)).1
              (Nat.le_of_not_lt fun hlt => hsummand ⟨hzero, hlt⟩)
        rw [if_pos (by omega)]
        exact Option.some_ne_none _ ∘ Eq.symm

theorem sum_spotAmount_eq {current : Nat × Nat} {entries : List (Nat × Nat)}
    (hsorted : (current :: entries).Pairwise fun a b => a.1 ≤ b.1) (hzero : lastAmount current.2 entries = 0)
    {height : Nat} (hheight : ∀ entry ∈ entries, entry.1 ≤ height) :
    ∑ i ∈ Finset.Ico current.1 height, spotAmount i current.2 entries = exactSum current entries := by
  induction entries generalizing current with
  | nil =>
    rw [lastAmount] at hzero
    simp [spotAmount, exactSum, hzero]
  | cons entry entries ih =>
    obtain ⟨hcurrent, hrest⟩ := List.pairwise_cons.1 hsorted
    obtain ⟨hentry, hentries⟩ := List.forall_mem_cons.1 hheight
    rw [sum_spotAmount_cons (hcurrent entry List.mem_cons_self) entries hentry, ih hrest hzero hentries, exactSum]

theorem lastAmount_eq_zero_iff (entries : List (Nat × Nat)) :
    lastAmount 0 entries = 0 ↔ ∀ last ∈ entries.getLast?, last.2 = 0 := by
  have hlast : ∀ amount, lastAmount amount entries = (entries.getLast?.map Prod.snd).getD amount := by
    induction entries with
    | nil => exact fun amount => rfl
    | cons entry entries ih =>
      intro amount
      rw [lastAmount, ih, List.getLast?_cons]
      cases entries.getLast? <;> rfl
  rw [hlast]
  cases entries.getLast? <;> simp

def entriesSum (calculator : InflationCalculator) : Nat := exactSum (1, 0) calculator.inflationMap

theorem sumAll_eq_some_iff (calculator : InflationCalculator) (total : Nat) :
    calculator.sumAll = some total ↔ (∀ last ∈ calculator.inflationMap.getLast?, last.2 = 0) ∧
      calculator.entriesSum < 2 ^ 64 ∧ total = ∑ i ∈ Finset.Ico 1 (2 ^ 64), calculator.getSpotAmount i := by
  rw [sumAll, sumEntries_eq_some_iff calculator.sorted_from_one (fun e he => (calculator.bounded e he).1) (by decide),
    Nat.zero_add, lastAmount_eq_zero_iff, entriesSum]
  refine and_congr_right fun hzero => and_congr_right fun _ => ?_
  have hsum := sum_spotAmount_eq calculator.sorted_from_one ((lastAmount_eq_zero_iff _).2 hzero)
    (fun e he => (calculator.bounded e he).1.le)
  rw [← hsum]
  rfl

/-- The cumulative amounts are sums of the spot amounts as long as these fit, and all of them are summed up exactly when
the inflation ends and the sum of all entries fits. -/
theorem getCumulativeAmount_sumAll (calculator : InflationCalculator) :
    (∀ height < 2 ^ 64, ∑ i ∈ Finset.Ico 1 height, calculator.getSpotAmount i < 2 ^ 64 →
      calculator.getCumulativeAmount height = ∑ i ∈ Finset.Ico 1 height, calculator.getSpotAmount i) ∧
    ∀ total, calculator.sumAll = some total ↔ (∀ last ∈ calculator.inflationMap.getLast?, last.2 = 0) ∧
      calculator.entriesSum < 2 ^ 64 ∧ total = ∑ i ∈ Finset.Ico 1 (2 ^ 64), calculator.getSpotAmount i := by
  refine ⟨fun height hheight hfits => ?_, calculator.sumAll_eq_some_iff⟩
  rw [calculator.getCumulativeAmount_eq hheight, Nat.mod_eq_of_lt hfits]

/-- Amounts of 345 from height 5 on and of zero from height 15 on. -/
example : ((empty.add 5 345).bind (·.add 15 0)).bind sumAll = some 3450 := by decide

end InflationCalculator

end Catapult.Currency
