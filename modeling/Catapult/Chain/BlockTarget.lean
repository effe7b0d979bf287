import Catapult.Chain.BlockHit
import Catapult.Chain.FixedPointPowerOfTwo

/-!
# The target of a block (`BlockScorer.cpp`)

The target is the product of the elapsed time, the importance and a multiplier, divided by the difficulty. The
multiplier is a power of two of the elapsed time, and its roundings can make it smaller for a later time.
-/

namespace Catapult.Chain

/-- Milliseconds, which are signed. -/
structure TimeSpan where
  millis : Int64
  deriving DecidableEq

def TimeSpan.seconds (timeSpan : TimeSpan) : Nat := (timeSpan.millis.toInt.tdiv 1000 % 2 ^ 64).toNat

/-- A difficulty is clamped to its limits. -/
structure Difficulty where
  value : Nat
  min_le : 10000000000000 ≤ value
  le_max : value ≤ 1000000000000000
  deriving DecidableEq

structure BlockchainConfiguration where
  blockGenerationTargetTime : TimeSpan
  blockTimeSmoothingFactor : UInt32
  maxDifficultyBlocks : UInt32
  totalChainImportance : UInt64

/-- The exponent of the multiplier with 16 binary places. A shifted time that is zero cannot divide. The numbers of 128
bits are large enough (`natAbs_power_lt`). -/
def smoothingPower (timeDiff : Nat) (config : BlockchainConfiguration) : Option Int :=
  let factor : Nat := config.blockTimeSmoothingFactor.toNat * 2 ^ 16 % 2 ^ 32
  let factor : Nat := factor * 2 ^ 16 / (1000 * 2 ^ 16)
  let targetTime : Nat := config.blockGenerationTargetTime.seconds * 2 ^ 16 % 2 ^ 64
  let elapsedTime : Nat := timeDiff * 2 ^ 16 % 2 ^ 64
  if targetTime = 0 then none
  else
    let power := ((factor : Int) * (elapsedTime - targetTime)).tdiv targetTime
    some ((power * 14426950408).tdiv 10000000000)

/-- Capped at both ends, because the power of two can only be calculated between them. -/
def smootherOfPower (power : Int) : Nat :=
  if power < -(5 * 2 ^ 16) then 0
  else if 435411 < power then 100 * 2 ^ 16
  else fixedPointPowerOfTwo power

def smoother (timeDiff : Nat) (config : BlockchainConfiguration) : Option Nat :=
  if config.blockTimeSmoothingFactor ≠ 0 then (smoothingPower timeDiff config).map smootherOfPower else some (2 ^ 16)

def getMultiplier (timeDiff : Nat) (config : BlockchainConfiguration) : Option Nat := do
  let smoother ← smoother timeDiff config
  return smoother * 2 ^ 38 % 2 ^ 64 * 2 ^ 10 % 2 ^ 256

/-- The target has 256 bits. -/
def calculateTarget (timeSpan : TimeSpan) (difficulty : Difficulty) (signerImportance : UInt64)
    (config : BlockchainConfiguration) : Option Nat := do
  let target := timeSpan.seconds * signerImportance.toNat % 2 ^ 256
  let multiplier ← getMultiplier timeSpan.seconds config
  let target := target * multiplier % 2 ^ 256
  let target := target * 8999999998 % 2 ^ 256
  if config.totalChainImportance = 0 then none
  else return target / config.totalChainImportance.toNat / difficulty.value

/-- `BlockHitPredicate`, with the looked up importance. -/
def isHit (generationHash : GenerationHash) (elapsedTime : TimeSpan) (difficulty : Difficulty) (importance : UInt64)
    (config : BlockchainConfiguration) : Option Bool := do
  let hit ← calculateHit generationHash
  let target ← calculateTarget elapsedTime difficulty importance config
  return hit < target

variable {config : BlockchainConfiguration}

theorem smoothingPower_mono (htime : config.blockGenerationTargetTime.seconds % 2 ^ 48 ≠ 0) {t t' : Nat} (hle : t ≤ t')
    (hlt : t' < 2 ^ 48) :
    ∃ power power', smoothingPower t config = some power ∧ smoothingPower t' config = some power' ∧ power ≤ power' := by
  have hpos : config.blockGenerationTargetTime.seconds * 2 ^ 16 % 2 ^ 64 ≠ 0 := by omega
  have hpow : ∀ {u : Nat}, u < 2 ^ 48 → u * 2 ^ 16 % 2 ^ 64 = u * 2 ^ 16 := fun h => Nat.mod_eq_of_lt (by omega)
  rw [smoothingPower, smoothingPower, if_neg hpos, if_neg hpos, hpow hlt, hpow (hle.trans_lt hlt)]
  refine ⟨_, _, rfl, rfl, Int.tdiv_le_tdiv (by decide) ?_⟩
  refine mul_le_mul_of_nonneg_right (Int.tdiv_le_tdiv (by omega) ?_) (by decide)
  exact mul_le_mul_of_nonneg_left (by omega) (by omega)

theorem smootherOfPower_almost_mono {power power' : Int} (h : power ≤ power') :
    2962 * smootherOfPower power ≤ 2963 * smootherOfPower power' := by
  rw [smootherOfPower, smootherOfPower]
  rcases lt_or_ge power (-(5 * 2 ^ 16)) with hlow | hlow
  · rw [if_pos hlow]
    exact Nat.zero_le _
  rw [if_neg (not_lt_of_ge hlow), if_neg (not_lt_of_ge (hlow.trans h))]
  rcases lt_or_ge 435411 power' with hhigh' | hhigh'
  · rw [if_pos hhigh']
    split
    · omega
    · case isFalse hhigh =>
      have hmax := fixedPointPowerOfTwo_le (v := power) ⟨by omega, by omega⟩
      omega
  · rw [if_neg (not_lt_of_ge hhigh'), if_neg (not_lt_of_ge (h.trans hhigh'))]
    exact fixedPointPowerOfTwo_almost_mono ⟨by omega, by omega⟩ ⟨by omega, by omega⟩ h

theorem smootherOfPower_le (power : Int) : smootherOfPower power ≤ 6554149 := by
  rw [smootherOfPower]
  split
  · decide
  · split
    · decide
    · exact fixedPointPowerOfTwo_le ⟨by omega, by omega⟩

/-- The times for which the roundings do not matter. The second one is later by one part in 2962, which is at least one
second up to 2962 seconds. -/
def FarEnough (config : BlockchainConfiguration) (t t' : Nat) : Prop :=
  config.blockTimeSmoothingFactor = 0 ∨ t = t' ∨ t ≤ 2962 ∨ 2963 * t ≤ 2962 * t'

theorem smoother_mul_mono (htime : config.blockGenerationTargetTime.seconds % 2 ^ 48 ≠ 0) {t t' : Nat} (hle : t ≤ t')
    (hlt : t' < 2 ^ 48) (hfar : FarEnough config t t') :
    ∃ m m', smoother t config = some m ∧ smoother t' config = some m' ∧ m ≤ 6554149 ∧ m' ≤ 6554149 ∧
      t * m ≤ t' * m' := by
  rw [smoother, smoother]
  by_cases hfactor : config.blockTimeSmoothingFactor = 0
  · rw [if_neg (not_not.2 hfactor), if_neg (not_not.2 hfactor)]
    exact ⟨_, _, rfl, rfl, by decide, by decide, Nat.mul_le_mul_right _ hle⟩
  obtain ⟨power, power', hpower, hpower', hmono⟩ := smoothingPower_mono htime hle hlt
  rw [if_pos hfactor, if_pos hfactor, hpower, hpower']
  refine ⟨_, _, rfl, rfl, smootherOfPower_le power, smootherOfPower_le power', ?_⟩
  by_cases hsame : t = t'
  · subst hsame
    rw [hpower] at hpower'
    cases hpower'
    exact le_rfl
  · have hfarther : 2963 * t ≤ 2962 * t' := by
      rcases hfar with hzero | heq | hsmall | hfar
      · exact absurd hzero hfactor
      · exact absurd heq hsame
      · omega
      · exact hfar
    have hsmoother := smootherOfPower_almost_mono hmono
    refine Nat.le_of_mul_le_mul_left (c := 2963 * 2962) ?_ (by decide)
    calc 2963 * 2962 * (t * smootherOfPower power) = 2963 * t * (2962 * smootherOfPower power) := by ring
      _ ≤ 2962 * t' * (2963 * smootherOfPower power') := Nat.mul_le_mul hfarther hsmoother
      _ = 2963 * 2962 * (t' * smootherOfPower power') := by ring

theorem seconds_mono {t t' : TimeSpan} (hnonneg : 0 ≤ t.millis) (hle : t.millis ≤ t'.millis) :
    t.seconds ≤ t'.seconds := by
  have hzero : 0 ≤ t.millis.toInt := Int64.le_iff_toInt_le.1 hnonneg
  have hmillis : t.millis.toInt ≤ t'.millis.toInt := Int64.le_iff_toInt_le.1 hle
  have hmax := t'.millis.toInt_lt
  rw [TimeSpan.seconds, TimeSpan.seconds, Int.tdiv_eq_ediv_of_nonneg hzero,
    Int.tdiv_eq_ediv_of_nonneg (hzero.trans hmillis)]
  omega

theorem calculateTarget_eq (htotal : config.totalChainImportance ≠ 0) {t : TimeSpan} {m : Nat} (ht : t.seconds < 2 ^ 48)
    (hm : smoother t.seconds config = some m) (hmax : m ≤ 6554149) (difficulty : Difficulty) (importance : UInt64) :
    calculateTarget t difficulty importance config =
      some (t.seconds * importance.toNat * (m * 2 ^ 48) * 8999999998 / config.totalChainImportance.toNat /
        difficulty.value) := by
  have hmultiplier : m * 2 ^ 38 % 2 ^ 64 * 2 ^ 10 % 2 ^ 256 = m * 2 ^ 48 := by omega
  have himportance : importance.toNat < 2 ^ 64 := importance.toNat_lt
  have hfirst : t.seconds * importance.toNat < 2 ^ 48 * 2 ^ 64 := Nat.mul_lt_mul'' ht himportance
  have hsecond : t.seconds * importance.toNat * (m * 2 ^ 48) < 2 ^ 48 * 2 ^ 64 * 2 ^ 71 :=
    Nat.mul_lt_mul'' hfirst (by omega)
  rw [calculateTarget, getMultiplier, hm]
  simp only [Option.bind_eq_bind, Option.bind_some, Option.pure_def, hmultiplier, if_neg htotal]
  rw [Nat.mod_eq_of_lt (hfirst.trans (by decide)), Nat.mod_eq_of_lt (hsecond.trans (by decide)),
    Nat.mod_eq_of_lt (by omega)]

/-- A later time, a larger importance and a smaller difficulty do not make the target smaller, and a block that is a hit
is still one. -/
theorem calculateTarget_mono (htime : config.blockGenerationTargetTime.seconds % 2 ^ 48 ≠ 0)
    (htotal : config.totalChainImportance ≠ 0) {t t' : TimeSpan} (hnonneg : 0 ≤ t.millis) (hle : t.millis ≤ t'.millis)
    (hlt : t'.seconds < 2 ^ 48) (hfar : FarEnough config t.seconds t'.seconds) {difficulty difficulty' : Difficulty}
    (hdifficulty : difficulty'.value ≤ difficulty.value) {importance importance' : UInt64}
    (himportance : importance.toNat ≤ importance'.toNat) :
    ∃ target target', calculateTarget t difficulty importance config = some target ∧
      calculateTarget t' difficulty' importance' config = some target' ∧ target ≤ target' ∧
      ∀ hash, isHit hash t difficulty importance config = some true →
        isHit hash t' difficulty' importance' config = some true := by
  have hseconds := seconds_mono hnonneg hle
  obtain ⟨m, m', hm, hm', hmax, hmax', hmono⟩ := smoother_mul_mono htime hseconds hlt hfar
  have htarget := calculateTarget_eq htotal (hseconds.trans_lt hlt) hm hmax difficulty importance
  have htarget' := calculateTarget_eq htotal hlt hm' hmax' difficulty' importance'
  have hproduct : t.seconds * importance.toNat * (m * 2 ^ 48) * 8999999998 ≤
      t'.seconds * importance'.toNat * (m' * 2 ^ 48) * 8999999998 := by
    refine Nat.mul_le_mul_right _ ?_
    calc t.seconds * importance.toNat * (m * 2 ^ 48) = t.seconds * m * importance.toNat * 2 ^ 48 := by ring
      _ ≤ t'.seconds * m' * importance'.toNat * 2 ^ 48 :=
        Nat.mul_le_mul_right _ (Nat.mul_le_mul hmono himportance)
      _ = t'.seconds * importance'.toNat * (m' * 2 ^ 48) := by ring
  have hfinal := (Nat.div_le_div_right (c := difficulty.value)
    (Nat.div_le_div_right (c := config.totalChainImportance.toNat) hproduct)).trans
    (Nat.div_le_div_left hdifficulty (Nat.lt_of_lt_of_le (by decide) difficulty'.min_le))
  refine ⟨_, _, htarget, htarget', hfinal, fun hash hhit => ?_⟩
  rw [isHit, calculateHit_eq, htarget] at hhit
  rw [isHit, calculateHit_eq, htarget']
  have hless := of_decide_eq_true (Option.some.inj hhit)
  exact congrArg some (decide_eq_true (hless.trans_le hfinal))

def sampleConfiguration : BlockchainConfiguration where
  blockGenerationTargetTime := ⟨21600000⟩
  blockTimeSmoothingFactor := 3000
  maxDifficultyBlocks := 60
  totalChainImportance := 8999999998

def sampleDifficulty : Difficulty := ⟨100000000000000, by decide, by decide⟩

theorem calculateTarget_mono_sample :
    ∃ target target', calculateTarget ⟨54757000⟩ sampleDifficulty 1000 sampleConfiguration = some target ∧
      calculateTarget ⟨54780000⟩ sampleDifficulty 1000 sampleConfiguration = some target' ∧ target ≤ target' ∧
      ∀ hash, isHit hash ⟨54757000⟩ sampleDifficulty 1000 sampleConfiguration = some true →
        isHit hash ⟨54780000⟩ sampleDifficulty 1000 sampleConfiguration = some true :=
  calculateTarget_mono (by decide) (by decide) (by decide) (by decide) (by decide)
    (Or.inr (Or.inr (Or.inr (by decide)))) le_rfl le_rfl

/-- One second later, the power is capped at 100, which is less than the calculated one. -/
theorem not_calculateTarget_mono :
    calculateTarget ⟨54757000⟩ sampleDifficulty 1000 sampleConfiguration = some 1010138148346832 ∧
      calculateTarget ⟨54758000⟩ sampleDifficulty 1000 sampleConfiguration = some 1010106811988187 ∧
      ¬ 1010138148346832 ≤ 1010106811988187 := by
  refine ⟨by decide +kernel, by decide +kernel, by decide⟩

end Catapult.Chain
