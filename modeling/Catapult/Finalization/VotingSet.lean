import Catapult.Finalization.Context
import Mathlib.Algebra.Order.Ring.Nat

/-!
# Heights of voting sets

An epoch is the heights from `calculateVotingSetStartHeight` to `calculateVotingSetEndHeight`. The first one is the
height one, the second one what is left of the first group, and every other one is a group of heights. The functions
are calculated in 64 and 32 bits; where the last height of an epoch fits they are the ones over the naturals
(`startHeight`, `endHeight`, `epochForHeight`), for which the epochs are a partition.
-/

namespace Catapult.Finalization

def calculateVotingSetStartHeight (epoch : UInt32) (grouping : UInt64) : Option UInt64 :=
  if grouping = 0 ∨ epoch = 0 then none
  else if epoch ≤ 2 then some epoch.toUInt64
  else some ((epoch - 2).toUInt64 * grouping + 1)

def calculateFinalizationEpochForHeight (height grouping : UInt64) : Option UInt32 :=
  if grouping = 0 ∨ height = 0 then none
  else if height ≤ 1 then some 1
  else
    let adjustment : UInt32 := if height % grouping = 0 then 0 else 1
    some (1 + adjustment + (height / grouping).toUInt32)

def InVotingSet (grouping height : UInt64) (epoch : UInt32) : Prop :=
  ∃ startHeight endHeight, calculateVotingSetStartHeight epoch grouping = some startHeight ∧
    calculateVotingSetEndHeight epoch grouping = some endHeight ∧ startHeight ≤ height ∧ height ≤ endHeight

def startHeight (grouping epoch : Nat) : Nat := if epoch ≤ 2 then epoch else (epoch - 2) * grouping + 1

def endHeight (grouping epoch : Nat) : Nat := if epoch = 1 then 1 else (epoch - 1) * grouping

def epochForHeight (grouping height : Nat) : Nat :=
  if height ≤ 1 then 1 else 1 + (if height % grouping = 0 then 0 else 1) + height / grouping

section Nat
variable {grouping height epoch : Nat}

theorem epochForHeight_succ (height : Nat) :
    epochForHeight grouping (height + 1) = if height = 0 then 1 else height / grouping + 2 := by
  rw [epochForHeight]
  by_cases hzero : height = 0
  · rw [if_pos (by omega), if_pos hzero]
  · rw [if_neg (by omega), if_neg hzero, Nat.succ_div]
    by_cases hdvd : grouping ∣ height + 1
    · rw [if_pos (Nat.mod_eq_zero_of_dvd hdvd), if_pos hdvd]
      omega
    · rw [if_neg fun hmod => hdvd (Nat.dvd_of_mod_eq_zero hmod), if_neg hdvd]
      omega

theorem epochForHeight_eq_iff (hgrouping : 2 ≤ grouping) (hheight : 1 ≤ height) (hepoch : 1 ≤ epoch) :
    epochForHeight grouping height = epoch ↔
      startHeight grouping epoch ≤ height ∧ height ≤ endHeight grouping epoch := by
  obtain ⟨height, rfl⟩ := Nat.exists_eq_add_of_le' hheight
  rw [epochForHeight_succ, startHeight, endHeight]
  by_cases hzero : height = 0
  · -- the second epoch starts after the first height
    rw [if_pos hzero, hzero]
    by_cases hone : epoch = 1
    · simp [hone]
    · rw [if_neg hone]
      split
      · omega
      · have hpos : 0 < (epoch - 2) * grouping := Nat.mul_pos (by omega) (by omega)
        omega
  · rw [if_neg hzero]
    by_cases hone : epoch = 1
    · rw [if_pos (by omega), if_pos hone]
      generalize height / grouping = group
      omega
    · obtain ⟨later, rfl⟩ := Nat.exists_eq_add_of_le' (show 2 ≤ epoch by omega)
      have hdiv : height / grouping = later ↔
          later * grouping ≤ height ∧ height < later * grouping + grouping := by
        rw [Nat.div_eq_iff (by omega)]
        omega
      rw [if_neg hone, Nat.add_right_cancel_iff, hdiv]
      simp only [Nat.add_sub_cancel]
      split
      · obtain rfl : later = 0 := by omega
        omega
      · have hmul : (later + 2 - 1) * grouping = later * grouping + grouping := Nat.succ_mul later grouping
        rw [hmul]
        omega

theorem startHeight_succ (hepoch : 1 ≤ epoch) : startHeight grouping (epoch + 1) = endHeight grouping epoch + 1 := by
  rw [startHeight, endHeight]
  by_cases hone : epoch = 1
  · rw [if_pos (by omega), if_pos hone, hone]
  · rw [if_neg (by omega), if_neg hone]
    rfl

theorem startHeight_le_endHeight (hgrouping : 2 ≤ grouping) (hepoch : 1 ≤ epoch) :
    startHeight grouping epoch ≤ endHeight grouping epoch := by
  obtain ⟨epoch, rfl⟩ := Nat.exists_eq_add_of_le' hepoch
  rw [startHeight, endHeight]
  by_cases hone : epoch + 1 = 1
  · rw [if_pos (by omega), if_pos hone]
    omega
  · obtain ⟨later, rfl⟩ := Nat.exists_eq_add_of_le' (show 1 ≤ epoch by omega)
    rw [if_neg hone]
    have hmul : (later + 1 + 1 - 1) * grouping = later * grouping + grouping := Nat.succ_mul later grouping
    split
    · obtain rfl : later = 0 := by omega
      omega
    · have hpred : later + 1 + 1 - 2 = later := rfl
      rw [hmul, hpred]
      omega

end Nat

section UInt
variable {grouping height : UInt64} {epoch : UInt32}

theorem toNat_toUInt64_sub {n : UInt32} (hle : n ≤ epoch) : (epoch - n).toUInt64.toNat = epoch.toNat - n.toNat := by
  rw [UInt32.toNat_toUInt64, UInt32.toNat_sub_of_le _ _ hle]

theorem calculateVotingSetEndHeight_eq (hgrouping : grouping ≠ 0) (hepoch : epoch ≠ 0) :
    calculateVotingSetEndHeight epoch grouping = some (UInt64.ofNat (endHeight grouping.toNat epoch.toNat)) := by
  have hiff : epoch = 1 ↔ epoch.toNat = 1 := UInt32.toNat_inj.symm
  rw [calculateVotingSetEndHeight, if_neg (not_or.2 ⟨hgrouping, hepoch⟩), endHeight]
  by_cases hone : epoch = 1
  · rw [if_pos hone, if_pos (hiff.1 hone)]
    rfl
  · have hpos : 1 ≤ epoch := by
      rw [UInt32.le_iff_toNat_le]
      exact Nat.one_le_iff_ne_zero.2 fun hzero => hepoch (UInt32.toNat_inj.1 hzero)
    rw [if_neg hone, if_neg (mt hiff.2 hone)]
    refine congrArg some (UInt64.toNat_inj.1 ?_)
    rw [UInt64.toNat_mul, toNat_toUInt64_sub hpos, UInt64.toNat_ofNat']
    rfl

theorem calculateVotingSetStartHeight_eq (hgrouping : grouping ≠ 0) (hepoch : epoch ≠ 0) :
    calculateVotingSetStartHeight epoch grouping = some (UInt64.ofNat (startHeight grouping.toNat epoch.toNat)) := by
  have hiff : epoch ≤ 2 ↔ epoch.toNat ≤ 2 := UInt32.le_iff_toNat_le
  rw [calculateVotingSetStartHeight, if_neg (not_or.2 ⟨hgrouping, hepoch⟩), startHeight]
  by_cases htwo : epoch ≤ 2
  · rw [if_pos htwo, if_pos (hiff.1 htwo)]
    refine congrArg some (UInt64.toNat_inj.1 ?_)
    rw [UInt32.toNat_toUInt64, UInt64.toNat_ofNat', Nat.mod_eq_of_lt (Nat.lt_trans epoch.toNat_lt (by decide))]
  · rw [if_neg htwo, if_neg (mt hiff.2 htwo)]
    refine congrArg some (UInt64.toNat_inj.1 ?_)
    have hle : (2 : UInt32) ≤ epoch := UInt32.le_of_lt (UInt32.not_le.1 htwo)
    rw [UInt64.toNat_add, UInt64.toNat_mul, toNat_toUInt64_sub hle, UInt64.toNat_ofNat', Nat.mod_add_mod]
    rfl

theorem calculateFinalizationEpochForHeight_eq (hgrouping : grouping ≠ 0) (hheight : height ≠ 0) :
    calculateFinalizationEpochForHeight height grouping =
      some (UInt32.ofNat (epochForHeight grouping.toNat height.toNat)) := by
  have hiff : height ≤ 1 ↔ height.toNat ≤ 1 := UInt64.le_iff_toNat_le
  rw [calculateFinalizationEpochForHeight, if_neg (not_or.2 ⟨hgrouping, hheight⟩), epochForHeight]
  by_cases hone : height ≤ 1
  · rw [if_pos hone, if_pos (hiff.1 hone)]
    rfl
  · rw [if_neg hone, if_neg (mt hiff.2 hone)]
    refine congrArg some (UInt32.toNat_inj.1 ?_)
    have hmod : height % grouping = 0 ↔ height.toNat % grouping.toNat = 0 := by
      rw [← UInt64.toNat_mod, ← UInt64.toNat_inj]
      rfl
    have hdiv : (height / grouping).toUInt32.toNat = height.toNat / grouping.toNat % 2 ^ 32 := by
      rw [UInt64.toNat_toUInt32, UInt64.toNat_div]
    by_cases hzero : height % grouping = 0
    · rw [if_pos (hmod.1 hzero)]
      simp only [if_pos hzero]
      rw [UInt32.toNat_add, hdiv, UInt32.toNat_ofNat', Nat.add_mod_mod]
      rfl
    · rw [if_neg (mt hmod.2 hzero)]
      simp only [if_neg hzero]
      rw [UInt32.toNat_add, hdiv, UInt32.toNat_ofNat', Nat.add_mod_mod]
      rfl

theorem inVotingSet_iff (hgrouping : 2 ≤ grouping) (hepoch : epoch ≠ 0)
    (hfits : endHeight grouping.toNat epoch.toNat < 2 ^ 64) : InVotingSet grouping height epoch ↔
      startHeight grouping.toNat epoch.toNat ≤ height.toNat ∧ height.toNat ≤ endHeight grouping.toNat epoch.toNat := by
  have hne : grouping ≠ 0 := by
    rintro rfl
    exact absurd hgrouping (by decide)
  have hpos : 1 ≤ epoch.toNat := Nat.one_le_iff_ne_zero.2 fun hzero => hepoch (UInt32.toNat_inj.1 hzero)
  have hend := UInt64.toNat_ofNat_of_lt' hfits
  have hstart := UInt64.toNat_ofNat_of_lt'
    (Nat.lt_of_le_of_lt (startHeight_le_endHeight (UInt64.le_iff_toNat_le.1 hgrouping) hpos) hfits)
  constructor
  · rintro ⟨first, last, hfirst, hlast, hge, hle⟩
    rw [calculateVotingSetStartHeight_eq hne hepoch] at hfirst
    rw [calculateVotingSetEndHeight_eq hne hepoch] at hlast
    cases hfirst
    cases hlast
    exact ⟨hstart ▸ UInt64.le_iff_toNat_le.1 hge, hend ▸ UInt64.le_iff_toNat_le.1 hle⟩
  · rintro ⟨hge, hle⟩
    refine ⟨_, _, calculateVotingSetStartHeight_eq hne hepoch, calculateVotingSetEndHeight_eq hne hepoch, ?_, ?_⟩
    · rwa [UInt64.le_iff_toNat_le, hstart]
    · rwa [UInt64.le_iff_toNat_le, hend]

theorem InVotingSet.ne_zero (h : InVotingSet grouping height epoch) : epoch ≠ 0 := by
  rintro rfl
  obtain ⟨_, _, hfirst, -⟩ := h
  rw [calculateVotingSetStartHeight, if_pos (.inr rfl)] at hfirst
  cases hfirst

theorem InVotingSet.epochForHeight_eq (hgrouping : 2 ≤ grouping) (hheight : 1 ≤ height)
    (hfits : endHeight grouping.toNat epoch.toNat < 2 ^ 64) (h : InVotingSet grouping height epoch) :
    epochForHeight grouping.toNat height.toNat = epoch.toNat := by
  have hpos : 1 ≤ epoch.toNat := Nat.one_le_iff_ne_zero.2 fun hzero => h.ne_zero (UInt32.toNat_inj.1 hzero)
  rw [epochForHeight_eq_iff (UInt64.le_iff_toNat_le.1 hgrouping) (UInt64.le_iff_toNat_le.1 hheight) hpos]
  exact (inVotingSet_iff hgrouping h.ne_zero hfits).1 h

end UInt

/-- What is said of a height whose epoch has a last height. -/
def IsInOneVotingSet (grouping height : UInt64) : Prop :=
  ∃ epoch, calculateFinalizationEpochForHeight height grouping = some epoch ∧ InVotingSet grouping height epoch ∧
    ∀ other : UInt32, endHeight grouping.toNat other.toNat < 2 ^ 64 → InVotingSet grouping height other → other = epoch

def AreAdjacent (grouping : UInt64) (epoch : UInt32) : Prop :=
  ∃ first last, calculateVotingSetStartHeight (epoch + 1) grouping = some first ∧
    calculateVotingSetEndHeight epoch grouping = some last ∧ first = last + 1 ∧
    (endHeight grouping.toNat epoch.toNat + 1 < 2 ^ 64 → first.toNat = last.toNat + 1)

/-- Heights whose epoch has a last height are in the interval of this epoch and of no other one, and the intervals of
all epochs are adjacent. -/
theorem votingSets_partition (grouping : UInt64) (hgrouping : 2 ≤ grouping) :
    (∀ height : UInt64, 1 ≤ height → epochForHeight grouping.toNat height.toNat < 2 ^ 32 →
      endHeight grouping.toNat (epochForHeight grouping.toNat height.toNat) < 2 ^ 64 →
      IsInOneVotingSet grouping height) ∧
    ∀ epoch : UInt32, 1 ≤ epoch → epoch.toNat + 1 < 2 ^ 32 → AreAdjacent grouping epoch := by
  have hne : grouping ≠ 0 := by
    rintro rfl
    exact absurd hgrouping (by decide)
  refine ⟨fun height hheight hepoch hend => ?_, fun epoch hepoch hnext => ?_⟩
  · have hpos : height ≠ 0 := by
      rintro rfl
      exact absurd hheight (by decide)
    have htoNat := UInt32.toNat_ofNat_of_lt' hepoch
    have hepochNe : UInt32.ofNat (epochForHeight grouping.toNat height.toNat) ≠ 0 := by
      intro hzero
      have hcontra := congrArg UInt32.toNat hzero
      rw [htoNat, epochForHeight] at hcontra
      split at hcontra
      · cases hcontra
      · rw [Nat.add_assoc, Nat.add_comm] at hcontra
        cases hcontra
    refine ⟨_, calculateFinalizationEpochForHeight_eq hne hpos, ?_, fun other hfits hother => ?_⟩
    · rw [inVotingSet_iff hgrouping hepochNe (htoNat.symm ▸ hend), htoNat]
      refine (epochForHeight_eq_iff (UInt64.le_iff_toNat_le.1 hgrouping) (UInt64.le_iff_toNat_le.1 hheight) ?_).1 rfl
      exact Nat.one_le_iff_ne_zero.2 fun hzero => hepochNe (by rw [hzero]; rfl)
    · rw [hother.epochForHeight_eq hgrouping hheight hfits, UInt32.ofNat_toNat]
  · have hepochNe : epoch ≠ 0 := by
      rintro rfl
      exact absurd hepoch (by decide)
    have htoNat : (epoch + 1).toNat = epoch.toNat + 1 := by
      rw [UInt32.toNat_add]
      exact Nat.mod_eq_of_lt hnext
    have hnextNe : epoch + 1 ≠ 0 := by
      intro hzero
      rw [hzero] at htoNat
      cases htoNat
    have hstart := @startHeight_succ grouping.toNat _ (UInt32.le_iff_toNat_le.1 hepoch)
    refine ⟨_, _, calculateVotingSetStartHeight_eq hne hnextNe, calculateVotingSetEndHeight_eq hne hepochNe, ?_,
      fun hfits => ?_⟩
    · rw [htoNat]
      exact (congrArg UInt64.ofNat hstart).trans (UInt64.ofNat_add _ 1)
    · rw [htoNat, UInt64.toNat_ofNat_of_lt' (Nat.lt_of_succ_lt hfits)]
      exact (congrArg (fun height => (UInt64.ofNat height).toNat) hstart).trans (UInt64.toNat_ofNat_of_lt' hfits)

theorem votingSets_partition_sample :
    IsInOneVotingSet 20 21 ∧ AreAdjacent 20 2 := by
  obtain ⟨hheights, hadjacent⟩ := votingSets_partition 20 (by decide)
  exact ⟨hheights 21 (by decide) (by decide) (by decide), hadjacent 2 (by decide) (by decide)⟩

/-- The last height of an epoch can be out of range, and the interval of an epoch whose heights are out of range can be
the one of another epoch. -/
theorem not_votingSets_partition_sample :
    ¬(∀ grouping height : UInt64, 2 ≤ grouping → 1 ≤ height →
      epochForHeight grouping.toNat height.toNat < 2 ^ 32 → ∃ epoch,
        calculateFinalizationEpochForHeight height grouping = some epoch ∧ InVotingSet grouping height epoch) ∧
    ¬(∀ grouping height : UInt64, 2 ≤ grouping → 1 ≤ height →
      epochForHeight grouping.toNat height.toNat < 2 ^ 32 → ∃! epoch, InVotingSet grouping height epoch) := by
  constructor
  · intro h
    obtain ⟨epoch, hepoch, first, last, -, hlast, -, hle⟩ :=
      h 0x8000000000000000 0x8000000000000001 (by decide) (by decide) (by decide)
    cases hepoch
    cases hlast
    exact absurd hle (by decide)
  · intro h
    have hunique := h 0x10000000000 5 (by decide) (by decide) (by decide)
    have htwo : InVotingSet 0x10000000000 5 2 := ⟨2, 0x10000000000, by decide, by decide, by decide, by decide⟩
    have hlater : InVotingSet 0x10000000000 5 0x1000002 :=
      ⟨1, 0x10000000000, by decide, by decide, by decide, by decide⟩
    exact absurd (hunique.unique htwo hlater) (by decide)

end Catapult.Finalization
