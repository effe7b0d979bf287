import Catapult.Chain.BlockTarget
import Catapult.Lib.FixedWidth

/-!
# The difficulty of the next block (`BlockDifficultyScorer.cpp`)

The next difficulty is the average one, scaled by the time that the blocks took, and changes by at most five percent.
The quotient of 128 bits is narrowed to 64 bits and multiplied by 20 to compare it.
-/

namespace Catapult.Chain
open Arithmetic

namespace Difficulty

def clamp (value : Nat) : Difficulty where
  value := max 10000000000000 (min 1000000000000000 value)
  min_le := le_max_left _ _
  le_max := max_le (by decide) (min_le_left _ _)

/-- `Difficulty()`. -/
def default : Difficulty := clamp 100000000000000

end Difficulty

def TimeSpan.unsignedMillis (timeSpan : TimeSpan) : Nat := timeSpan.millis.toUInt64.toNat

structure BlockStatistic where
  height : Nat
  timestamp : UInt64
  difficulty : Difficulty
  deriving DecidableEq

namespace BlockStatistic

def rawTimestamp (statistic : BlockStatistic) : Nat := statistic.timestamp.toNat

def rawDifficulty (statistic : BlockStatistic) : Nat := statistic.difficulty.value

end BlockStatistic

section Calculation
variable (arith : Arithmetic)

/-- The changes of the difficulty are clamped to 5%. -/
def clampChange (lastDifficulty difficulty : Nat) : Option Nat := do
  let low ← arith.uint64 (19 * lastDifficulty)
  let high ← arith.uint64 (21 * lastDifficulty)
  let scaled ← arith.uint64 (20 * difficulty)
  if low > scaled then
    return low / 20
  else if high < scaled then
    return high / 20
  else
    return difficulty

/-- The calculation for the first and the last one of the statistics, which have at least two elements. -/
def scaleDifficulty (statistics : List BlockStatistic) (first last : BlockStatistic)
    (config : BlockchainConfiguration) : Option Difficulty := do
  let sum ← arith.sum BlockStatistic.rawDifficulty statistics
  let timeDiff ← arith.sub64 last.rawTimestamp first.rawTimestamp
  let averageDifficulty ← divide sum statistics.length
  let largeDifficulty ← arith.uint128 (averageDifficulty * config.blockGenerationTargetTime.unsignedMillis)
  let largeDifficulty ← arith.uint128 (largeDifficulty * (statistics.length - 1))
  let largeDifficulty ← divide largeDifficulty timeDiff
  let difficulty ← arith.uint64 largeDifficulty
  let difficulty ← clampChange arith last.rawDifficulty difficulty
  return Difficulty.clamp difficulty

/-- The statistics are sorted by height and by timestamp. -/
def calculateDifficulty (statistics : List BlockStatistic) (config : BlockchainConfiguration) : Option Difficulty :=
  match statistics.head?, statistics.getLast? with
  | some first, some last =>
    if statistics.length < 2 then some Difficulty.default else scaleDifficulty arith statistics first last config
  | _, _ => some Difficulty.default

end Calculation

def largeDifficulty (statistics : List BlockStatistic) (config : BlockchainConfiguration) : Nat :=
  (statistics.map BlockStatistic.rawDifficulty).sum / statistics.length *
    config.blockGenerationTargetTime.unsignedMillis * (statistics.length - 1)

/-- The unbounded quotient, clamped to five percent of the last difficulty and then to the limits. -/
def exactDifficulty (statistics : List BlockStatistic) (first last : BlockStatistic)
    (config : BlockchainConfiguration) : Difficulty :=
  Difficulty.clamp (max (19 * last.rawDifficulty / 20) (min (21 * last.rawDifficulty / 20)
    (largeDifficulty statistics config / (last.rawTimestamp - first.rawTimestamp))))

/-- The sum of the difficulties is below `2 ^ 64`, and so is 20 times the quotient. -/
structure Moderate (statistics : List BlockStatistic) (first last : BlockStatistic) (config : BlockchainConfiguration) :
    Prop where
  sum : (statistics.map BlockStatistic.rawDifficulty).sum < 2 ^ 64
  quotient : largeDifficulty statistics config < 922337203685477581 * (last.rawTimestamp - first.rawTimestamp)

/-- The result is the exact one, and nothing wraps or divides by zero. -/
structure ExactDifficulty (statistics : List BlockStatistic) (first last : BlockStatistic)
    (config : BlockchainConfiguration) : Prop where
  checked : calculateDifficulty checked statistics config = some (exactDifficulty statistics first last config)
  wrapping : calculateDifficulty wrapping statistics config = some (exactDifficulty statistics first last config)

theorem clampChange_yields {lastDifficulty difficulty : Nat} (hlast : lastDifficulty ≤ 1000000000000000) :
    Yields (clampChange checked lastDifficulty difficulty) (20 * difficulty < 2 ^ 64)
      (max (19 * lastDifficulty / 20) (min (21 * lastDifficulty / 20) difficulty)) := by
  refine ((uint64_yields _).of_holds (by omega)).bind_of_true ?_
  refine ((uint64_yields _).of_holds (by omega)).bind_of_true ?_
  refine ((uint64_yields _).bind (Q := True) ?_).congr (and_iff_left trivial)
  split
  · case isTrue hlow =>
    have hmax : max (19 * lastDifficulty / 20) (min (21 * lastDifficulty / 20) difficulty) =
        19 * lastDifficulty / 20 := by omega
    rw [hmax]
    exact Yields.of_some _
  · case isFalse hlow =>
    split
    · case isTrue hhigh =>
      have hmin : max (19 * lastDifficulty / 20) (min (21 * lastDifficulty / 20) difficulty) =
          21 * lastDifficulty / 20 := by omega
      rw [hmin]
      exact Yields.of_some _
    · case isFalse hhigh =>
      have hsame : max (19 * lastDifficulty / 20) (min (21 * lastDifficulty / 20) difficulty) = difficulty := by omega
      rw [hsame]
      exact Yields.of_some _

section Exact
variable {statistics : List BlockStatistic} {first last : BlockStatistic} {config : BlockchainConfiguration}

theorem scaleDifficulty_yields (hlen : 2 ≤ statistics.length) (htime : first.rawTimestamp < last.rawTimestamp) :
    Yields (scaleDifficulty checked statistics first last config) (Moderate statistics first last config)
      (exactDifficulty statistics first last config) := by
  have htarget : config.blockGenerationTargetTime.unsignedMillis < 2 ^ 64 := UInt64.toNat_lt _
  have hlast : last.rawTimestamp < 2 ^ 64 := UInt64.toNat_lt _
  have hlength : statistics.length ≠ 0 := by omega
  have hdifference : last.rawTimestamp - first.rawTimestamp ≠ 0 := by omega
  refine Yields.congr (P := (statistics.map BlockStatistic.rawDifficulty).sum < 2 ^ 64 ∧
    (statistics.map BlockStatistic.rawDifficulty).sum / statistics.length *
      config.blockGenerationTargetTime.unsignedMillis < 2 ^ 128 ∧
    largeDifficulty statistics config < 2 ^ 128 ∧
    largeDifficulty statistics config / (last.rawTimestamp - first.rawTimestamp) < 2 ^ 64 ∧
    20 * (largeDifficulty statistics config / (last.rawTimestamp - first.rawTimestamp)) < 2 ^ 64) ?_ ?_
  · refine (sum_yields _ _).bind ?_
    refine ((sub64_yields _ _).of_holds htime.le).bind_of_true ?_
    refine ((divide_yields _ _).of_holds hlength).bind_of_true ?_
    refine (uint128_yields _).bind ((uint128_yields _).bind ?_)
    refine ((divide_yields _ _).of_holds hdifference).bind_of_true ((uint64_yields _).bind ?_)
    refine ((clampChange_yields last.difficulty.le_max).bind (Q := True) ?_).congr (and_iff_left trivial)
    exact Yields.of_some _
  · constructor
    · rintro ⟨hsum, -, -, -, hscaled⟩
      refine ⟨hsum, ?_⟩
      rw [← Nat.div_lt_iff_lt_mul (Nat.pos_of_ne_zero hdifference)]
      omega
    · rintro ⟨hsum, hquotient⟩
      have hlarge : largeDifficulty statistics config < 2 ^ 128 := by omega
      have hscaled : largeDifficulty statistics config / (last.rawTimestamp - first.rawTimestamp) <
          922337203685477581 := (Nat.div_lt_iff_lt_mul (Nat.pos_of_ne_zero hdifference)).2 hquotient
      have hproduct : (statistics.map BlockStatistic.rawDifficulty).sum / statistics.length *
          config.blockGenerationTargetTime.unsignedMillis ≤ largeDifficulty statistics config :=
        Nat.le_mul_of_pos_right _ (by omega)
      exact ⟨hsum, hproduct.trans_lt hlarge, hlarge, by omega, by omega⟩

theorem scaleDifficulty_below : Below (scaleDifficulty checked statistics first last config)
    (scaleDifficulty wrapping statistics first last config) := by
  refine (sum_below _ _).bind fun _ => (sub64_below (UInt64.toNat_lt _)).bind fun _ => ?_
  refine (Below.refl _).bind fun _ => (uint128_below _).bind fun _ => (uint128_below _).bind fun _ => ?_
  refine (Below.refl _).bind fun _ => (uint64_below _).bind fun _ => Below.bind ?_ fun _ => Below.refl _
  exact (uint64_below _).bind fun _ => (uint64_below _).bind fun _ => (uint64_below _).bind fun _ => Below.refl _

theorem clampChange_isSome (lastDifficulty difficulty : Nat) :
    (clampChange wrapping lastDifficulty difficulty).isSome := by
  simp only [clampChange, wrapping, Option.bind_eq_bind, Option.bind_some]
  split
  · rfl
  · split <;> rfl

theorem scaleDifficulty_isSome (hlen : 2 ≤ statistics.length) (htime : first.rawTimestamp < last.rawTimestamp) :
    (scaleDifficulty wrapping statistics first last config).isSome := by
  have hlast : last.rawTimestamp < 2 ^ 64 := UInt64.toNat_lt _
  obtain ⟨sum, hsum⟩ := exists_sum_wrapping BlockStatistic.rawDifficulty statistics
  have hlength : statistics.length ≠ 0 := by omega
  have hdifference : (last.rawTimestamp + (2 ^ 64 - first.rawTimestamp)) % 2 ^ 64 ≠ 0 := by omega
  rw [scaleDifficulty, hsum]
  simp only [wrapping, divide, if_neg hlength, if_neg hdifference, Option.bind_eq_bind, Option.bind_some]
  obtain ⟨difficulty, hdifficulty⟩ := Option.isSome_iff_exists.1 (clampChange_isSome last.rawDifficulty
    (sum / statistics.length * config.blockGenerationTargetTime.unsignedMillis % 2 ^ 128 * (statistics.length - 1) %
      2 ^ 128 / ((last.rawTimestamp + (2 ^ 64 - first.rawTimestamp)) % 2 ^ 64) % 2 ^ 64))
  simp only [wrapping] at hdifficulty
  rw [hdifficulty]
  rfl

theorem rawTimestamp_lt (hsorted : statistics.Pairwise fun a b => a.timestamp < b.timestamp)
    (hlen : 2 ≤ statistics.length) (hfirst : statistics.head? = some first) (hlast : statistics.getLast? = some last) :
    first.rawTimestamp < last.rawTimestamp := by
  cases statistics with
  | nil => cases hfirst
  | cons a rest =>
    cases hfirst
    cases rest with
    | nil => exact absurd hlen (by simp)
    | cons b rest =>
      rw [List.getLast?_cons_cons] at hlast
      exact UInt64.lt_iff_toNat_lt.1 ((List.pairwise_cons.1 hsorted).1 last (List.mem_of_getLast? hlast))

theorem calculateDifficulty_eq {arith : Arithmetic} (hlen : 2 ≤ statistics.length)
    (hfirst : statistics.head? = some first) (hlast : statistics.getLast? = some last) :
    calculateDifficulty arith statistics config = scaleDifficulty arith statistics first last config := by
  rw [calculateDifficulty, hfirst, hlast]
  exact if_neg (Nat.not_lt_of_le hlen)

/-- The difficulty is the exact one if and only if the average difficulty and the time difference are moderate. -/
theorem calculateDifficulty_exact_iff (hsorted : statistics.Pairwise fun a b => a.timestamp < b.timestamp)
    (hlen : 2 ≤ statistics.length) (hfirst : statistics.head? = some first) (hlast : statistics.getLast? = some last) :
    ExactDifficulty statistics first last config ↔ Moderate statistics first last config := by
  have hyields := @scaleDifficulty_yields _ _ _ config hlen (rawTimestamp_lt hsorted hlen hfirst hlast)
  rw [← calculateDifficulty_eq hlen hfirst hlast] at hyields
  constructor
  · intro hexact
    exact hyields.eq_some_iff.1 hexact.checked
  · intro hmoderate
    have hchecked := hyields.eq_some_iff.2 hmoderate
    refine ⟨hchecked, ?_⟩
    rw [calculateDifficulty_eq hlen hfirst hlast] at hchecked ⊢
    exact scaleDifficulty_below _ hchecked

end Exact

def difficultyConfiguration : BlockchainConfiguration where
  blockGenerationTargetTime := ⟨30000⟩
  blockTimeSmoothingFactor := 3000
  maxDifficultyBlocks := 60
  totalChainImportance := 8999999998

def burstDifficulty : Difficulty := ⟨122978293824731, by decide, by decide⟩

def sampleStatistics (timeDiff : UInt64) : List BlockStatistic :=
  [⟨1, 1000, burstDifficulty⟩, ⟨2, 1000 + timeDiff, burstDifficulty⟩]

theorem calculateDifficulty_exact_sample :
    ExactDifficulty (sampleStatistics 29000) ⟨1, 1000, burstDifficulty⟩ ⟨2, 30000, burstDifficulty⟩
      difficultyConfiguration :=
  (calculateDifficulty_exact_iff (by decide) (by decide) rfl rfl).2 ⟨by decide, by decide⟩

/-- The second block comes after one millisecond. The difficulty should become larger, but it becomes smaller. -/
theorem not_exactDifficulty_burst :
    (calculateDifficulty wrapping (sampleStatistics 1) difficultyConfiguration).map Difficulty.value =
        some 116829379133494 ∧
      (exactDifficulty (sampleStatistics 1) ⟨1, 1000, burstDifficulty⟩ ⟨2, 1001, burstDifficulty⟩
        difficultyConfiguration).value = 129127208515967 ∧
      ¬ ExactDifficulty (sampleStatistics 1) ⟨1, 1000, burstDifficulty⟩ ⟨2, 1001, burstDifficulty⟩
        difficultyConfiguration := by
  have hwrapping : (calculateDifficulty wrapping (sampleStatistics 1) difficultyConfiguration).map Difficulty.value =
      some 116829379133494 := by decide +kernel
  have hexact : (exactDifficulty (sampleStatistics 1) ⟨1, 1000, burstDifficulty⟩ ⟨2, 1001, burstDifficulty⟩
      difficultyConfiguration).value = 129127208515967 := by decide +kernel
  refine ⟨hwrapping, hexact, fun hcontra => ?_⟩
  rw [hcontra.wrapping, Option.map_some, hexact] at hwrapping
  cases hwrapping

end Catapult.Chain
