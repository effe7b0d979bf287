import Catapult.Lib.FixedWidth
import Catapult.State.AccountState
import Mathlib.Algebra.Order.BigOperators.Group.List
import Mathlib.Tactic.Ring

/-!
# The importances of all accounts

(`CalculatorUtils.cpp`, `PosImportanceCalculator.cpp`)

The importance of an account has a part by its stake and a share of the importance for activity. The numbers are of 64
and 128 bits, and what does not fit into them wraps around. The same calculation with an error in place of a wrap
(`checked`) has a result exactly when the numbers are `Bounded`, and the result is the formula without any bounds.
-/

namespace Catapult.Importance
open Catapult.State Arithmetic

structure BlockchainConfiguration where
  totalChainImportance : UInt64
  importanceActivityPercentage : UInt8
  minHarvesterBalance : Amount

namespace BlockchainConfiguration

def importance (config : BlockchainConfiguration) : Nat := config.totalChainImportance.toNat

def percentage (config : BlockchainConfiguration) : Nat := config.importanceActivityPercentage.toNat

def minBalance (config : BlockchainConfiguration) : Nat := config.minHarvesterBalance.toNat

end BlockchainConfiguration

structure AccountActivitySummary where
  totalFeesPaid : Amount := 0
  beneficiaryCount : UInt32 := 0
  previousImportance : UInt64 := 0
  deriving DecidableEq

/-- `balance` is the one of the harvesting mosaic. -/
structure AccountSummary where
  balance : Amount
  activitySummary : AccountActivitySummary

namespace AccountSummary

def stake (summary : AccountSummary) : Nat := summary.balance.toNat

def fees (summary : AccountSummary) : Nat := summary.activitySummary.totalFeesPaid.toNat

def beneficiaryCount (summary : AccountSummary) : Nat := summary.activitySummary.beneficiaryCount.toNat

end AccountSummary

structure ImportanceCalculationContext where
  activeHarvestingMosaics : Nat
  totalBeneficiaryCount : Nat
  totalFeesPaid : Nat

/-- The parts of an importance that are stored in the summary of an account. -/
structure ImportanceParts where
  stakeImportance : Nat
  activityImportance : Nat

section Calculation
variable (arith : Arithmetic) (config : BlockchainConfiguration)

def stakeImportance (context : ImportanceCalculationContext) (summary : AccountSummary) : Option Nat := do
  let stakeImportance ← arith.uint128 (config.importance * summary.stake)
  let stakeImportance ← arith.uint128 (stakeImportance * (100 - config.percentage))
  let divisor ← arith.uint64 (context.activeHarvestingMosaics * 100)
  let stakeImportance ← divide stakeImportance divisor
  arith.uint64 stakeImportance

/-- The importance for a kind of activity: `percentage * (minHarvesterBalance / stake) * weight * value / total`. -/
def activityImportance (weight value total stake : Nat) : Option Nat :=
  if 0 < config.percentage ∧ 0 < total then do
    let factor ← arith.uint64 (config.percentage * config.minBalance)
    let factor ← arith.uint64 (factor * weight)
    let importance ← arith.uint128 (config.importance * value)
    let importance ← arith.uint128 (importance * factor)
    let divisor ← arith.uint64 (total * 1000)
    let importance ← divide importance divisor
    divide importance stake
  else some 0

def feeImportance (context : ImportanceCalculationContext) (summary : AccountSummary) : Option Nat :=
  activityImportance arith config 8 summary.fees context.totalFeesPaid summary.stake

def beneficiaryCountImportance (context : ImportanceCalculationContext) (summary : AccountSummary) : Option Nat :=
  activityImportance arith config 2 summary.beneficiaryCount context.totalBeneficiaryCount summary.stake

def calculateImportances (context : ImportanceCalculationContext) (summary : AccountSummary) :
    Option ImportanceParts := do
  let stakeImportance ← stakeImportance arith config context summary
  let feeImportance ← feeImportance arith config context summary
  let beneficiaryCountImportance ← beneficiaryCountImportance arith config context summary
  let activityImportance ← arith.uint128 (feeImportance + beneficiaryCountImportance)
  let rawActivityImportance ← arith.uint64 activityImportance
  return ⟨stakeImportance, rawActivityImportance⟩

def calculateFinalImportance (totalActivityImportance targetActivityImportanceRaw : Nat) (parts : ImportanceParts) :
    Option Nat :=
  if totalActivityImportance = 0 then
    if 0 < config.percentage then do
      let importance ← arith.uint64 (parts.stakeImportance * 100)
      divide importance (100 - config.percentage)
    else some parts.stakeImportance
  else do
    let numerator ← arith.uint64 (parts.activityImportance * targetActivityImportanceRaw)
    let share ← divide numerator totalActivityImportance
    arith.uint64 (parts.stakeImportance + share)

def calculationContext (summaries : List AccountSummary) : Option ImportanceCalculationContext := do
  let activeHarvestingMosaics ← arith.sum AccountSummary.stake summaries
  let totalBeneficiaryCount ← arith.sum AccountSummary.beneficiaryCount summaries
  let totalFeesPaid ← arith.sum AccountSummary.fees summaries
  return ⟨activeHarvestingMosaics, totalBeneficiaryCount, totalFeesPaid⟩

def scaleImportances (parts : List ImportanceParts) : Option (List Nat) := do
  let totalActivityImportance ← arith.sum ImportanceParts.activityImportance parts
  let targetActivityImportanceRaw ← arith.uint64 (config.importance * config.percentage)
  parts.mapM (calculateFinalImportance arith config totalActivityImportance (targetActivityImportanceRaw / 100))

/-- The importances of the high value accounts that `PosImportanceCalculator::recalculate` finalizes. -/
def finalImportances (summaries : List AccountSummary) : Option (List Nat) := do
  let context ← calculationContext arith summaries
  let parts ← summaries.mapM (calculateImportances arith config context)
  scaleImportances arith config parts

end Calculation

namespace Formula
variable (config : BlockchainConfiguration)

def total (value : AccountSummary → Nat) (summaries : List AccountSummary) : Nat := (summaries.map value).sum

def context (summaries : List AccountSummary) : ImportanceCalculationContext where
  activeHarvestingMosaics := total AccountSummary.stake summaries
  totalBeneficiaryCount := total AccountSummary.beneficiaryCount summaries
  totalFeesPaid := total AccountSummary.fees summaries

def stake (context : ImportanceCalculationContext) (summary : AccountSummary) : Nat :=
  config.importance * summary.stake * (100 - config.percentage) / (context.activeHarvestingMosaics * 100)

def activity (weight value total stake : Nat) : Nat :=
  if 0 < config.percentage ∧ 0 < total then
    config.importance * value * (config.percentage * config.minBalance * weight) / (total * 1000) / stake
  else 0

def parts (context : ImportanceCalculationContext) (summary : AccountSummary) : ImportanceParts where
  stakeImportance := stake config context summary
  activityImportance :=
    activity config 8 summary.fees context.totalFeesPaid summary.stake +
      activity config 2 summary.beneficiaryCount context.totalBeneficiaryCount summary.stake

def targetActivity : Nat := config.importance * config.percentage / 100

def final (totalActivity : Nat) (parts : ImportanceParts) : Nat :=
  if totalActivity = 0 then
    if 0 < config.percentage then parts.stakeImportance * 100 / (100 - config.percentage) else parts.stakeImportance
  else parts.stakeImportance + parts.activityImportance * targetActivity config / totalActivity

def allParts (summaries : List AccountSummary) : List ImportanceParts :=
  summaries.map (parts config (context summaries))

def totalActivity (summaries : List AccountSummary) : Nat :=
  ((allParts config summaries).map ImportanceParts.activityImportance).sum

def importances (summaries : List AccountSummary) : List Nat :=
  (allParts config summaries).map (final config (totalActivity config summaries))

end Formula

/-- Accounts that can harvest, with a configuration and balances up to the maximum supply. -/
structure Admissible (config : BlockchainConfiguration) (summaries : List AccountSummary) : Prop where
  percentage : config.percentage < 100
  importance : config.importance ≤ 9000000000000000
  highValue : ∀ summary ∈ summaries, config.minBalance ≤ summary.stake
  supply : Formula.total AccountSummary.stake summaries ≤ 9000000000000000

namespace Formula
variable {config : BlockchainConfiguration} {summaries : List AccountSummary} {summary : AccountSummary}

theorem sum_div_le {α : Type} (x : α → Nat) (d : Nat) (l : List α) :
    (l.map fun a => x a / d).sum ≤ (l.map x).sum / d := by
  induction l with
  | nil => simp
  | cons a l ih =>
    rw [List.map_cons, List.sum_cons, List.map_cons, List.sum_cons]
    exact (Nat.add_le_add_left ih _).trans Nat.div_add_div_le_add_div

theorem sum_mul {α : Type} (x : α → Nat) (k : Nat) (l : List α) : (l.map fun a => k * x a).sum = k * (l.map x).sum := by
  induction l with
  | nil => simp
  | cons a l ih => rw [List.map_cons, List.sum_cons, List.map_cons, List.sum_cons, ih, Nat.mul_add]

theorem sum_le_sum {α : Type} {x y : α → Nat} {l : List α} (h : ∀ a ∈ l, x a ≤ y a) :
    (l.map x).sum ≤ (l.map y).sum := by
  induction l with
  | nil => exact le_rfl
  | cons a l ih =>
    rw [List.map_cons, List.sum_cons, List.map_cons, List.sum_cons]
    exact Nat.add_le_add (h a List.mem_cons_self) (ih fun b hb => h b (List.mem_cons_of_mem _ hb))

theorem le_total {value : AccountSummary → Nat} (h : summary ∈ summaries) : value summary ≤ total value summaries :=
  List.single_le_sum (by simp) _ (List.mem_map_of_mem h)

theorem sum_stake_le (config : BlockchainConfiguration) (summaries : List AccountSummary) :
    (summaries.map (stake config (context summaries))).sum ≤ config.importance * (100 - config.percentage) / 100 := by
  have hsum : (summaries.map fun summary => config.importance * summary.stake * (100 - config.percentage)).sum =
      config.importance * (100 - config.percentage) * total AccountSummary.stake summaries := by
    rw [total, ← sum_mul]
    exact congrArg List.sum (List.map_congr_left fun summary _ => by ring)
  refine (sum_div_le _ _ summaries).trans ?_
  rw [hsum, context]
  rcases Nat.eq_zero_or_pos (total AccountSummary.stake summaries) with hzero | hpos
  · simp [hzero]
  · rw [Nat.mul_comm (total AccountSummary.stake summaries) 100, Nat.mul_div_mul_right _ _ hpos]

theorem stake_le (h : summary ∈ summaries) : stake config (context summaries) summary ≤ config.importance := by
  have hle := List.single_le_sum (by simp) _ (List.mem_map_of_mem (f := stake config (context summaries)) h)
  refine (hle.trans (sum_stake_le config summaries)).trans ?_
  refine Nat.div_le_of_le_mul ?_
  rw [Nat.mul_comm 100]
  exact Nat.mul_le_mul_left _ (Nat.sub_le _ _)

theorem activity_le {weight value total stake : Nat} (hmin : config.minBalance ≤ stake) :
    activity config weight value total stake ≤
      config.importance * config.percentage * weight * value / (total * 1000) := by
  rw [activity]
  split
  · rw [Nat.div_div_eq_div_mul]
    rcases Nat.eq_zero_or_pos stake with hzero | hpos
    · simp [hzero]
    · rw [← Nat.mul_div_mul_right _ (total * 1000) hpos]
      refine Nat.div_le_div_right ?_
      calc config.importance * value * (config.percentage * config.minBalance * weight)
          = config.importance * config.percentage * weight * value * config.minBalance := by ring
        _ ≤ config.importance * config.percentage * weight * value * stake := Nat.mul_le_mul_left _ hmin
  · exact Nat.zero_le _

theorem sum_activity_le {weight : Nat} (value : AccountSummary → Nat)
    (hmin : ∀ summary ∈ summaries, config.minBalance ≤ summary.stake) :
    (summaries.map fun summary =>
      activity config weight (value summary) (total value summaries) summary.stake).sum ≤
      config.importance * config.percentage * weight / 1000 := by
  refine (sum_le_sum fun summary h => activity_le (hmin summary h)).trans ?_
  refine (sum_div_le _ _ summaries).trans ?_
  rw [sum_mul]
  rcases Nat.eq_zero_or_pos (total value summaries) with hzero | hpos
  · simp [hzero]
  · rw [Nat.mul_comm (total value summaries) 1000]
    exact (Nat.mul_div_mul_right _ _ hpos).le

theorem sum_add {α : Type} (x y : α → Nat) (l : List α) :
    (l.map fun a => x a + y a).sum = (l.map x).sum + (l.map y).sum := by
  induction l with
  | nil => rfl
  | cons a l ih =>
    simp only [List.map_cons, List.sum_cons, ih]
    omega

theorem totalActivity_le (h : Admissible config summaries) :
    totalActivity config summaries ≤ targetActivity config := by
  rw [totalActivity, allParts, List.map_map, targetActivity]
  have hfees := @sum_activity_le config summaries 8 AccountSummary.fees h.highValue
  have hcounts := @sum_activity_le config summaries 2 AccountSummary.beneficiaryCount h.highValue
  refine (sum_add _ _ summaries).le.trans ((Nat.add_le_add hfees hcounts).trans ?_)
  omega

theorem activity_le_total (h : summary ∈ summaries) :
    (parts config (context summaries) summary).activityImportance ≤ totalActivity config summaries := by
  refine List.single_le_sum (by simp) _ ?_
  exact List.mem_map_of_mem (List.mem_map_of_mem h)

theorem targetActivity_le (h : Admissible config summaries) : targetActivity config ≤ config.importance := by
  refine Nat.div_le_of_le_mul ?_
  rw [Nat.mul_comm 100]
  exact Nat.mul_le_mul_left _ h.percentage.le

theorem share_le (h : summary ∈ summaries) :
    (parts config (context summaries) summary).activityImportance * targetActivity config /
      totalActivity config summaries ≤ targetActivity config := by
  refine Nat.div_le_of_le_mul ?_
  exact Nat.mul_le_mul_right _ (activity_le_total h)

theorem stake_mul_div_le (hpercentage : config.percentage < 100) (summary : AccountSummary)
    (summaries : List AccountSummary) :
    stake config (context summaries) summary * 100 / (100 - config.percentage) ≤
      config.importance * summary.stake / total AccountSummary.stake summaries := by
  have hpos : 0 < 100 - config.percentage := by omega
  have hle : stake config (context summaries) summary * 100 ≤
      config.importance * summary.stake * (100 - config.percentage) / total AccountSummary.stake summaries := by
    rw [stake, context, ← Nat.div_div_eq_div_mul]
    exact Nat.div_mul_le_self _ _
  refine (Nat.div_le_div_right hle).trans ?_
  rw [Nat.div_div_eq_div_mul, Nat.mul_div_mul_right _ _ hpos]

theorem sum_importances_le (h : Admissible config summaries) :
    (importances config summaries).sum ≤ config.importance := by
  rw [importances, allParts, List.map_map]
  by_cases hzero : totalActivity config summaries = 0
  · by_cases hpercentage : 0 < config.percentage
    · have hfinal : ∀ summary ∈ summaries, (final config (totalActivity config summaries) ∘
          parts config (context summaries)) summary ≤
            config.importance * summary.stake / total AccountSummary.stake summaries := by
        intro summary _
        rw [Function.comp_apply, final, if_pos hzero, if_pos hpercentage]
        exact stake_mul_div_le h.percentage summary summaries
      refine (sum_le_sum hfinal).trans ((sum_div_le _ _ summaries).trans ?_)
      rw [sum_mul]
      refine Nat.div_le_of_le_mul ?_
      rw [Nat.mul_comm, total]
    · have hfinal : ∀ summary ∈ summaries, (final config (totalActivity config summaries) ∘
          parts config (context summaries)) summary ≤ stake config (context summaries) summary := by
        intro summary _
        rw [Function.comp_apply, final, if_pos hzero, if_neg hpercentage]
        rfl
      refine (sum_le_sum hfinal).trans ((sum_stake_le config summaries).trans ?_)
      refine Nat.div_le_of_le_mul ?_
      rw [Nat.mul_comm 100]
      exact Nat.mul_le_mul_left _ (Nat.sub_le _ _)
  · have hfinal : ∀ summary ∈ summaries, (final config (totalActivity config summaries) ∘
        parts config (context summaries)) summary ≤ stake config (context summaries) summary +
          targetActivity config * (parts config (context summaries) summary).activityImportance /
            totalActivity config summaries := by
      intro summary _
      rw [Function.comp_apply, final, if_neg hzero, Nat.mul_comm (targetActivity config)]
      rfl
    have hshares : (summaries.map fun summary =>
        targetActivity config * (parts config (context summaries) summary).activityImportance /
          totalActivity config summaries).sum ≤ targetActivity config := by
      refine (sum_div_le _ _ summaries).trans (Nat.div_le_of_le_mul ?_)
      rw [sum_mul, Nat.mul_comm, totalActivity, allParts, List.map_map]
      rfl
    refine (sum_le_sum hfinal).trans ?_
    rw [sum_add]
    refine (Nat.add_le_add (sum_stake_le config summaries) hshares).trans ?_
    -- the two percentages add up to all
    have hsplit : config.importance * (100 - config.percentage) + config.importance * config.percentage =
        config.importance * 100 := by
      rw [← Nat.mul_add, Nat.sub_add_cancel h.percentage.le]
    rw [targetActivity]
    omega

end Formula

/-- The numbers that the formula does not bound: all are bounds on what is recorded for the accounts. -/
def ActivityBounded (config : BlockchainConfiguration) (weight value total stake : Nat) : Prop :=
  0 < config.percentage ∧ 0 < total →
    config.importance * value * (config.percentage * config.minBalance * weight) < 2 ^ 128 ∧
      total * 1000 < 2 ^ 64 ∧ stake ≠ 0

structure Bounded (config : BlockchainConfiguration) (summaries : List AccountSummary) : Prop where
  beneficiaryCount : Formula.total AccountSummary.beneficiaryCount summaries < 2 ^ 64
  fees : Formula.total AccountSummary.fees summaries < 2 ^ 64
  stake : ∀ summary ∈ summaries, Formula.total AccountSummary.stake summaries ≠ 0
  feeActivity : ∀ summary ∈ summaries,
    ActivityBounded config 8 summary.fees (Formula.total AccountSummary.fees summaries) summary.stake
  beneficiaryActivity : ∀ summary ∈ summaries,
    ActivityBounded config 2 summary.beneficiaryCount (Formula.total AccountSummary.beneficiaryCount summaries)
      summary.stake
  share : ∀ summary ∈ summaries,
    (Formula.activity config 8 summary.fees (Formula.total AccountSummary.fees summaries) summary.stake +
      Formula.activity config 2 summary.beneficiaryCount (Formula.total AccountSummary.beneficiaryCount summaries)
        summary.stake) * (config.importance * config.percentage / 100) < 2 ^ 64

section Checked
variable {config : BlockchainConfiguration} {summaries : List AccountSummary} {summary : AccountSummary}

theorem calculationContext_yields (h : Admissible config summaries) :
    Yields (calculationContext Arithmetic.checked summaries)
      (Formula.total AccountSummary.beneficiaryCount summaries < 2 ^ 64 ∧
        Formula.total AccountSummary.fees summaries < 2 ^ 64) (Formula.context summaries) := by
  have hsupply : Formula.total AccountSummary.stake summaries < 2 ^ 64 := h.supply.trans_lt (by decide)
  refine ((sum_yields _ summaries).of_holds hsupply).bind_of_true ?_
  refine (sum_yields AccountSummary.beneficiaryCount summaries).bind ?_
  have hcontext : Yields (some (Formula.context summaries)) True (Formula.context summaries) := .of_some _
  exact ((sum_yields AccountSummary.fees summaries).bind hcontext).congr (and_iff_left trivial)

theorem stakeImportance_yields (h : Admissible config summaries) (hmem : summary ∈ summaries) :
    Yields (stakeImportance Arithmetic.checked config (Formula.context summaries) summary)
      (Formula.total AccountSummary.stake summaries ≠ 0)
      (Formula.stake config (Formula.context summaries) summary) := by
  have hstake : summary.stake ≤ 9000000000000000 := (Formula.le_total hmem).trans h.supply
  have hproduct : config.importance * summary.stake ≤ 9000000000000000 * 9000000000000000 :=
    Nat.mul_le_mul h.importance hstake
  have hnumerator : config.importance * summary.stake * (100 - config.percentage) ≤
      9000000000000000 * 9000000000000000 * 100 := Nat.mul_le_mul hproduct (Nat.sub_le _ _)
  have hdivisor : (Formula.context summaries).activeHarvestingMosaics * 100 ≤ 9000000000000000 * 100 :=
    Nat.mul_le_mul_right 100 h.supply
  have hresult : Formula.stake config (Formula.context summaries) summary ≤ 9000000000000000 :=
    (Formula.stake_le hmem).trans h.importance
  refine ((uint128_yields _).of_holds (hproduct.trans_lt (by decide))).bind_of_true ?_
  refine ((uint128_yields _).of_holds (hnumerator.trans_lt (by decide))).bind_of_true ?_
  refine ((uint64_yields _).of_holds (hdivisor.trans_lt (by decide))).bind_of_true ?_
  refine ((divide_yields _ _).bind ((uint64_yields _).of_holds ?_)).congr ?_
  · exact hresult.trans_lt (by decide)
  · rw [and_true, Nat.mul_ne_zero_iff]
    exact and_iff_left (by decide)

theorem activityImportance_yields (h : Admissible config summaries) (hmem : summary ∈ summaries)
    {weight value total : Nat} (hweight : weight ≤ 8) (hvalue : value < 2 ^ 64) :
    Yields (activityImportance Arithmetic.checked config weight value total summary.stake)
      (ActivityBounded config weight value total summary.stake)
      (Formula.activity config weight value total summary.stake) := by
  rw [activityImportance, Formula.activity, ActivityBounded]
  by_cases hpos : 0 < config.percentage ∧ 0 < total
  · have hmin : config.minBalance ≤ 9000000000000000 :=
      (h.highValue summary hmem).trans ((Formula.le_total hmem).trans h.supply)
    have hfactor : config.percentage * config.minBalance ≤ 100 * 9000000000000000 :=
      Nat.mul_le_mul h.percentage.le hmin
    have hweighted : config.percentage * config.minBalance * weight ≤ 100 * 9000000000000000 * 8 :=
      Nat.mul_le_mul hfactor hweight
    have hproduct : config.importance * value < 2 ^ 128 :=
      (Nat.mul_le_mul h.importance hvalue.le).trans_lt (by decide)
    rw [if_pos hpos, if_pos hpos]
    refine Yields.congr ?_ (forall_prop_of_true hpos).symm
    refine ((uint64_yields _).of_holds (hfactor.trans_lt (by decide))).bind_of_true ?_
    refine ((uint64_yields _).of_holds (hweighted.trans_lt (by decide))).bind_of_true ?_
    refine ((uint128_yields _).of_holds hproduct).bind_of_true ?_
    refine (uint128_yields _).bind ((uint64_yields _).bind ?_)
    refine ((divide_yields _ _).of_holds ?_).bind_of_true (divide_yields _ _)
    exact Nat.mul_ne_zero hpos.2.ne' (by decide)
  · rw [if_neg hpos, if_neg hpos]
    exact (Yields.of_some 0).congr (iff_of_true trivial fun hcontra => absurd hcontra hpos)

theorem fees_lt (summary : AccountSummary) : summary.fees < 2 ^ 64 := UInt64.toNat_lt _

theorem beneficiaryCount_lt (summary : AccountSummary) : summary.beneficiaryCount < 2 ^ 64 :=
  (UInt32.toNat_lt _).trans (by decide)

theorem calculateImportances_yields (h : Admissible config summaries) (hmem : summary ∈ summaries) :
    Yields (calculateImportances Arithmetic.checked config (Formula.context summaries) summary)
      (Formula.total AccountSummary.stake summaries ≠ 0 ∧
        ActivityBounded config 8 summary.fees (Formula.total AccountSummary.fees summaries) summary.stake ∧
        ActivityBounded config 2 summary.beneficiaryCount (Formula.total AccountSummary.beneficiaryCount summaries)
          summary.stake) (Formula.parts config (Formula.context summaries) summary) := by
  have hactivity : (Formula.parts config (Formula.context summaries) summary).activityImportance < 2 ^ 64 := by
    refine lt_of_le_of_lt ?_ (show 9000000000000000 < 2 ^ 64 by decide)
    exact (Formula.activity_le_total hmem).trans ((Formula.totalActivity_le h).trans
      ((Formula.targetActivity_le h).trans h.importance))
  refine (stakeImportance_yields h hmem).bind ?_
  refine (activityImportance_yields h hmem (by decide) (fees_lt summary)).bind ?_
  refine ((activityImportance_yields h hmem (by decide) (beneficiaryCount_lt summary)).bind (Q := True) ?_).congr ?_
  · refine ((uint128_yields _).of_holds (hactivity.trans (by decide))).bind_of_true ?_
    exact ((uint64_yields _).of_holds hactivity).bind_of_true (Yields.of_some _)
  · exact and_iff_left trivial

theorem calculateFinalImportance_yields (h : Admissible config summaries) (hmem : summary ∈ summaries) :
    Yields (calculateFinalImportance Arithmetic.checked config (Formula.totalActivity config summaries)
        (Formula.targetActivity config) (Formula.parts config (Formula.context summaries) summary))
      ((Formula.parts config (Formula.context summaries) summary).activityImportance *
        Formula.targetActivity config < 2 ^ 64)
      (Formula.final config (Formula.totalActivity config summaries)
        (Formula.parts config (Formula.context summaries) summary)) := by
  have hstake : (Formula.parts config (Formula.context summaries) summary).stakeImportance ≤ 9000000000000000 :=
    (Formula.stake_le hmem).trans h.importance
  have hactivity : (Formula.parts config (Formula.context summaries) summary).activityImportance ≤
      Formula.totalActivity config summaries := Formula.activity_le_total hmem
  rw [calculateFinalImportance, Formula.final]
  by_cases hzero : Formula.totalActivity config summaries = 0
  · rw [if_pos hzero, if_pos hzero]
    have hnone : (Formula.parts config (Formula.context summaries) summary).activityImportance = 0 := by omega
    have hshare : (Formula.parts config (Formula.context summaries) summary).activityImportance *
        Formula.targetActivity config < 2 ^ 64 := by
      rw [hnone, Nat.zero_mul]
      decide
    refine Yields.congr (P := True) ?_ (iff_of_true trivial hshare)
    by_cases hpercentage : 0 < config.percentage
    · have hproduct := (Nat.mul_le_mul_right 100 hstake).trans_lt (show 9000000000000000 * 100 < 2 ^ 64 by decide)
      rw [if_pos hpercentage, if_pos hpercentage]
      refine ((uint64_yields _).of_holds hproduct).bind_of_true ((divide_yields _ _).of_holds ?_)
      exact Nat.sub_ne_zero_of_lt h.percentage
    · rw [if_neg hpercentage, if_neg hpercentage]
      exact Yields.of_some _
  · rw [if_neg hzero, if_neg hzero]
    have hshare := (Formula.share_le hmem).trans ((Formula.targetActivity_le h).trans h.importance)
    refine ((uint64_yields _).bind (Q := True) ?_).congr (and_iff_left trivial)
    refine ((divide_yields _ _).of_holds hzero).bind_of_true ((uint64_yields _).of_holds ?_)
    exact (Nat.add_le_add hstake hshare).trans_lt (by decide)

theorem scaleImportances_yields (h : Admissible config summaries) :
    Yields (scaleImportances Arithmetic.checked config (Formula.allParts config summaries))
      (∀ parts ∈ Formula.allParts config summaries, parts.activityImportance * Formula.targetActivity config < 2 ^ 64)
      (Formula.importances config summaries) := by
  have htotal : Formula.totalActivity config summaries < 2 ^ 64 :=
    ((Formula.totalActivity_le h).trans ((Formula.targetActivity_le h).trans h.importance)).trans_lt (by decide)
  have htarget : config.importance * config.percentage < 2 ^ 64 :=
    (Nat.mul_le_mul h.importance h.percentage.le).trans_lt (by decide)
  refine ((sum_yields _ _).of_holds htotal).bind_of_true ?_
  refine ((uint64_yields _).of_holds htarget).bind_of_true (Yields.mapM fun parts hparts => ?_)
  obtain ⟨summary, hmem, rfl⟩ := List.mem_map.1 hparts
  exact calculateFinalImportance_yields h hmem

theorem finalImportances_yields (h : Admissible config summaries) :
    Yields (finalImportances Arithmetic.checked config summaries) (Bounded config summaries)
      (Formula.importances config summaries) := by
  have hparts := (Yields.mapM fun summary hmem => calculateImportances_yields h hmem).bind (scaleImportances_yields h)
  refine ((calculationContext_yields h).bind hparts).congr ?_
  constructor
  · rintro ⟨⟨hcount, hfees⟩, hall, hshare⟩
    exact ⟨hcount, hfees, fun summary hmem => (hall summary hmem).1, fun summary hmem => (hall summary hmem).2.1,
      fun summary hmem => (hall summary hmem).2.2, fun summary hmem => hshare _ (List.mem_map_of_mem hmem)⟩
  · rintro ⟨hcount, hfees, hstake, hfee, hbeneficiary, hshare⟩
    refine ⟨⟨hcount, hfees⟩, fun summary hmem => ⟨hstake summary hmem, hfee summary hmem, hbeneficiary summary hmem⟩,
      fun parts hparts => ?_⟩
    obtain ⟨summary, hmem, rfl⟩ := List.mem_map.1 hparts
    exact hshare summary hmem

end Checked

section Wrapping
variable (config : BlockchainConfiguration)

theorem stakeImportance_below (context : ImportanceCalculationContext) (summary : AccountSummary) :
    Below (stakeImportance Arithmetic.checked config context summary)
      (stakeImportance Arithmetic.wrapping config context summary) := by
  refine (uint128_below _).bind fun _ => (uint128_below _).bind fun _ => (uint64_below _).bind fun _ => ?_
  exact (Below.refl _).bind fun _ => uint64_below _

theorem activityImportance_below (weight value total stake : Nat) :
    Below (activityImportance Arithmetic.checked config weight value total stake)
      (activityImportance Arithmetic.wrapping config weight value total stake) := by
  rw [activityImportance, activityImportance]
  split
  · refine (uint64_below _).bind fun _ => (uint64_below _).bind fun _ => ?_
    refine (uint128_below _).bind fun _ => (uint128_below _).bind fun _ => ?_
    exact (uint64_below _).bind fun _ => Below.refl _
  · exact Below.refl _

theorem calculateImportances_below (context : ImportanceCalculationContext) (summary : AccountSummary) :
    Below (calculateImportances Arithmetic.checked config context summary)
      (calculateImportances Arithmetic.wrapping config context summary) := by
  refine (stakeImportance_below config context summary).bind fun _ => ?_
  refine (activityImportance_below config _ _ _ _).bind fun _ => ?_
  refine (activityImportance_below config _ _ _ _).bind fun _ => ?_
  exact (uint128_below _).bind fun _ => (uint64_below _).bind fun _ => Below.refl _

theorem calculateFinalImportance_below (totalActivity target : Nat) (parts : ImportanceParts) :
    Below (calculateFinalImportance Arithmetic.checked config totalActivity target parts)
      (calculateFinalImportance Arithmetic.wrapping config totalActivity target parts) := by
  rw [calculateFinalImportance, calculateFinalImportance]
  split
  · split
    · exact (uint64_below _).bind fun _ => Below.refl _
    · exact Below.refl _
  · exact (uint64_below _).bind fun _ => (Below.refl _).bind fun _ => uint64_below _

theorem finalImportances_below (summaries : List AccountSummary) :
    Below (finalImportances Arithmetic.checked config summaries)
      (finalImportances Arithmetic.wrapping config summaries) := by
  refine Below.bind ?_ fun context => (Below.mapM (calculateImportances_below config context) _).bind fun parts => ?_
  · exact (sum_below _ _).bind fun _ => (sum_below _ _).bind fun _ => (sum_below _ _).bind fun _ => Below.refl _
  · refine (sum_below _ _).bind fun _ => (uint64_below _).bind fun _ => ?_
    exact Below.mapM (calculateFinalImportance_below config _ _) _

end Wrapping

/-- The importances are those of the formula, without any wrap, and do not exceed the total. -/
structure ExactImportances (config : BlockchainConfiguration) (summaries : List AccountSummary) : Prop where
  checked : finalImportances Arithmetic.checked config summaries = some (Formula.importances config summaries)
  wrapping : finalImportances Arithmetic.wrapping config summaries = some (Formula.importances config summaries)
  sum_le : (Formula.importances config summaries).sum ≤ config.importance

theorem recalculate_exact_iff {config : BlockchainConfiguration} {summaries : List AccountSummary}
    (h : Admissible config summaries) : ExactImportances config summaries ↔ Bounded config summaries := by
  constructor
  · intro hexact
    exact (finalImportances_yields h).eq_some_iff.1 hexact.checked
  · intro hbounded
    have hchecked := (finalImportances_yields h).eq_some_iff.2 hbounded
    exact ⟨hchecked, finalImportances_below config summaries _ hchecked, Formula.sum_importances_le h⟩

def sampleConfiguration (totalChainImportance : UInt64) : BlockchainConfiguration where
  totalChainImportance := totalChainImportance
  importanceActivityPercentage := 5
  minHarvesterBalance := 10000000000

def sampleSummary (balance fees : UInt64) : AccountSummary where
  balance := balance
  activitySummary := { totalFeesPaid := fees }

def sampleSummaries : List AccountSummary := [sampleSummary 10000000000 0, sampleSummary 20000000000 100]

theorem sample_admissible : Admissible (sampleConfiguration 7842928625000000) sampleSummaries where
  percentage := by decide
  importance := by decide
  highValue := by decide
  supply := by decide

/-- The activity importance of the second account times the target for all activity takes more than 64 bits. -/
theorem not_exactImportances_sample :
    Admissible (sampleConfiguration 7842928625000000) sampleSummaries ∧
      finalImportances Arithmetic.wrapping (sampleConfiguration 7842928625000000) sampleSummaries =
        some [2483594064583333, 4967188129205760] ∧
      Formula.importances (sampleConfiguration 7842928625000000) sampleSummaries =
        [2483594064583333, 5359334560416666] ∧
      ¬ ExactImportances (sampleConfiguration 7842928625000000) sampleSummaries := by
  refine ⟨sample_admissible, by decide +kernel, by decide +kernel, fun hexact => ?_⟩
  exact absurd hexact.wrapping (by decide +kernel)

theorem recalculate_exact_sample : Bounded (sampleConfiguration 1000000) sampleSummaries :=
  (@recalculate_exact_iff (sampleConfiguration 1000000) sampleSummaries
    ⟨by decide, by decide, by decide, by decide⟩).1 ⟨by decide +kernel, by decide +kernel, by decide +kernel⟩

end Catapult.Importance
