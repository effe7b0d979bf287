import Catapult.Ionet.NodeInteractions
import Catapult.Lib.SlidingWindow
import Mathlib.Data.UInt

/-!
# The rate monitor

Data is registered in buckets, the first one at the front. A bucket starts with the first data that comes when no
bucket is current. Durations are in milliseconds, and whoever accepts data learns whether the handler was called.
-/

namespace Catapult.Ionet

structure RateMonitorSettings where
  numBuckets : UInt16
  bucketDuration : UInt64
  maxTotalSize : UInt64
  deriving DecidableEq

def subtractNonNegative (timestamp : Timestamp) (timeSpan : UInt64) : Timestamp :=
  if timestamp < timeSpan then 0 else timestamp - timeSpan

namespace RateMonitor

structure Bucket where
  startTime : Timestamp
  totalSize : UInt64
  deriving DecidableEq

variable (settings : RateMonitorSettings)

def endTime (bucket : Bucket) : Timestamp := bucket.startTime + settings.bucketDuration

def totalSize (buckets : List Bucket) : UInt64 :=
  buckets.foldl (fun totalSize bucket => totalSize + bucket.totalSize) 0

def add (buckets : List Bucket) (time : Timestamp) (size : UInt32) : List Bucket :=
  match buckets.getLast? with
  | some currentBucket =>
    if currentBucket.startTime ≤ time ∧ time < endTime settings currentBucket then
      buckets.dropLast ++ [{ currentBucket with totalSize := currentBucket.totalSize + size.toUInt64 }]
    else buckets ++ [⟨time, size.toUInt64⟩]
  | none => [⟨time, size.toUInt64⟩]

def minRelevantTimestamp (time : Timestamp) : Timestamp :=
  subtractNonNegative time ((settings.numBuckets.toUInt64 - 1) * settings.bucketDuration)

/-- The buckets, and whether the handler was called. -/
def accept (buckets : List Bucket) (time : Timestamp) (size : UInt32) : List Bucket × Bool :=
  -- buckets with any overlap are preserved
  let pruned := buckets.dropWhile fun bucket => endTime settings bucket < minRelevantTimestamp settings time
  let added := add settings pruned time size
  (added, settings.maxTotalSize < totalSize added)

def run (accepts : List (Timestamp × UInt32)) : List Bucket × Bool :=
  accepts.foldl (fun state call => accept settings state.1 call.1 call.2) ([], false)

end RateMonitor

/-!
## The window of the rate monitor

As long as the monitored period, the ends of the buckets and the sizes of one window fit into 64 bits, the monitor is a
sliding window over natural numbers, and the handler is called for the traffic of the window and for no other.
-/

namespace RateMonitor
open Lib (SlidingWindow.Covers)
open Lib.SlidingWindow (observe sizeWithin Tracks tracks_run)

variable {settings : RateMonitorSettings} {accepts : List (Timestamp × UInt32)} {buckets : List Bucket}
  {time : Timestamp} {size : UInt32}

def observation (call : Timestamp × UInt32) : Nat × Nat := (call.1.toNat, call.2.toNat)

def Bucket.toNat (bucket : Bucket) : Lib.SlidingWindow.Bucket := ⟨bucket.startTime.toNat, bucket.totalSize.toNat⟩

def period (settings : RateMonitorSettings) : Nat := (settings.numBuckets.toNat - 1) * settings.bucketDuration.toNat

/-- After calls of which the last one was at this time. -/
structure WindowSound (settings : RateMonitorSettings) (accepts : List (Timestamp × UInt32)) (time : Timestamp) :
    Prop where
  complete : sizeWithin ((settings.numBuckets.toNat - 1) * settings.bucketDuration.toNat) time.toNat
    (accepts.map observation) ≤ (totalSize (run settings accepts).1).toNat
  recent : (totalSize (run settings accepts).1).toNat ≤
    sizeWithin (settings.numBuckets.toNat * settings.bucketDuration.toNat) time.toNat (accepts.map observation)
  disjoint : (run settings accepts).1.Pairwise fun earlier later =>
    earlier.startTime.toNat + settings.bucketDuration.toNat ≤ later.startTime.toNat
  handler : (run settings accepts).2 = true ↔ settings.maxTotalSize < totalSize (run settings accepts).1

structure Fits (settings : RateMonitorSettings) (accepts : List (Timestamp × UInt32)) : Prop where
  period : period settings < 2 ^ 64
  ends : ∀ call ∈ accepts, call.1.toNat + settings.bucketDuration.toNat < 2 ^ 64
  sizes : ∀ earlier time size, earlier ++ [(time, size)] <+: accepts →
    sizeWithin (settings.numBuckets.toNat * settings.bucketDuration.toNat) time.toNat
      ((earlier ++ [(time, size)]).map observation) < 2 ^ 64

theorem Fits.of_append {later : List (Timestamp × UInt32)} (h : Fits settings (accepts ++ later)) :
    Fits settings accepts where
  period := h.period
  ends call hcall := h.ends call (List.mem_append_left _ hcall)
  sizes earlier time size hle := h.sizes earlier time size (hle.trans (List.prefix_append _ _))

theorem period_add (h : 1 ≤ settings.numBuckets) :
    period settings + settings.bucketDuration.toNat = settings.numBuckets.toNat * settings.bucketDuration.toNat := by
  have hone : 1 ≤ settings.numBuckets.toNat := UInt16.le_iff_toNat_le.mp h
  rw [period, Nat.sub_one_mul, Nat.sub_add_cancel]
  exact Nat.le_mul_of_pos_left _ hone

theorem toNat_minRelevantTimestamp (h : 1 ≤ settings.numBuckets) (hperiod : period settings < 2 ^ 64) :
    (minRelevantTimestamp settings time).toNat = time.toNat - period settings := by
  have hone : 1 ≤ settings.numBuckets.toNat := UInt16.le_iff_toNat_le.mp h
  have hnum : (settings.numBuckets.toUInt64 - 1).toNat = settings.numBuckets.toNat - 1 := by
    rw [UInt64.toNat_sub_of_le, UInt16.toNat_toUInt64]
    · rfl
    · rw [UInt64.le_iff_toNat_le, UInt16.toNat_toUInt64]
      exact hone
  have hspan : ((settings.numBuckets.toUInt64 - 1) * settings.bucketDuration).toNat = period settings := by
    rw [UInt64.toNat_mul, hnum]
    exact Nat.mod_eq_of_lt hperiod
  rw [minRelevantTimestamp, subtractNonNegative]
  split
  · rename_i hlt
    rw [UInt64.lt_iff_toNat_lt, hspan] at hlt
    rw [Nat.sub_eq_zero_of_le hlt.le]
    rfl
  · rename_i hle
    rw [UInt64.lt_iff_toNat_lt, hspan, Nat.not_lt] at hle
    rw [UInt64.toNat_sub_of_le, hspan]
    rw [UInt64.le_iff_toNat_le, hspan]
    exact hle

theorem toNat_endTime {bucket : Bucket} (h : bucket.startTime.toNat + settings.bucketDuration.toNat < 2 ^ 64) :
    (endTime settings bucket).toNat = bucket.startTime.toNat + settings.bucketDuration.toNat := by
  rw [endTime, UInt64.toNat_add, Nat.mod_eq_of_lt h]

theorem map_prune {relevant : Timestamp}
    (h : ∀ bucket ∈ buckets, bucket.startTime.toNat + settings.bucketDuration.toNat < 2 ^ 64) :
    (buckets.dropWhile fun bucket => endTime settings bucket < relevant).map Bucket.toNat =
      Lib.SlidingWindow.prune settings.bucketDuration.toNat relevant.toNat (buckets.map Bucket.toNat) := by
  induction buckets with
  | nil => rfl
  | cons bucket buckets ih =>
    have hended : endTime settings bucket < relevant ↔
        bucket.toNat.start + settings.bucketDuration.toNat < relevant.toNat := by
      rw [UInt64.lt_iff_toNat_lt, toNat_endTime (h bucket List.mem_cons_self)]
      rfl
    have hrest := ih fun other hmem => h other (List.mem_cons_of_mem _ hmem)
    rw [List.dropWhile_cons, List.map_cons, Lib.SlidingWindow.prune, List.dropWhile_cons]
    by_cases hlt : endTime settings bucket < relevant
    · rw [if_pos (by simpa using hlt), if_pos (by simpa using hended.mp hlt), hrest, Lib.SlidingWindow.prune]
    · rw [if_neg (by simpa using hlt), if_neg (by simpa using fun hended' => hlt (hended.mpr hended')), List.map_cons]

theorem add_append_singleton (duration time size : Nat) (earlier : List Lib.SlidingWindow.Bucket)
    (bucket : Lib.SlidingWindow.Bucket) :
    Lib.SlidingWindow.add duration time size (earlier ++ [bucket]) =
      earlier ++ Lib.SlidingWindow.add duration time size [bucket] := by
  induction earlier with
  | nil => rfl
  | cons head earlier ih =>
    rcases earlier with _ | ⟨next, earlier⟩
    · rfl
    · have hcons : Lib.SlidingWindow.add duration time size (head :: (next :: earlier ++ [bucket])) =
          head :: Lib.SlidingWindow.add duration time size (next :: earlier ++ [bucket]) := rfl
      rw [List.cons_append, hcons, ih]
      rfl

theorem map_add (h : ∀ bucket ∈ buckets, bucket.startTime.toNat + settings.bucketDuration.toNat < 2 ^ 64)
    (htotal : Lib.SlidingWindow.total (Lib.SlidingWindow.add settings.bucketDuration.toNat time.toNat size.toNat
      (buckets.map Bucket.toNat)) < 2 ^ 64) :
    (add settings buckets time size).map Bucket.toNat =
      Lib.SlidingWindow.add settings.bucketDuration.toNat time.toNat size.toNat (buckets.map Bucket.toNat) := by
  rcases List.eq_nil_or_concat' buckets with rfl | ⟨earlier, current, rfl⟩
  · simp [add, Lib.SlidingWindow.add, Bucket.toNat]
  · have hcurrent : current.startTime ≤ time ∧ time < endTime settings current ↔
        current.toNat.start ≤ time.toNat ∧ time.toNat < current.toNat.start + settings.bucketDuration.toNat := by
      rw [UInt64.le_iff_toNat_le, UInt64.lt_iff_toNat_lt, toNat_endTime (h current (by simp))]
      rfl
    rw [List.map_append, List.map_singleton, add_append_singleton, Lib.SlidingWindow.add] at htotal ⊢
    rw [add, List.getLast?_concat]
    simp only [hcurrent]
    split <;> rename_i hin
    · rw [if_pos hin, Lib.SlidingWindow.total] at htotal
      have hsum : (current.totalSize + size.toUInt64).toNat = current.totalSize.toNat + size.toNat := by
        rw [UInt64.toNat_add, UInt32.toNat_toUInt64, Nat.mod_eq_of_lt]
        simp only [List.map_append, List.sum_append, List.map_cons, List.map_nil, List.sum_cons, List.sum_nil,
          Bucket.toNat] at htotal
        omega
      rw [List.dropLast_concat, List.map_append, List.map_singleton]
      simp only [Bucket.toNat, hsum]
    · simp [Bucket.toNat]

theorem toNat_totalSize (h : Lib.SlidingWindow.total (buckets.map Bucket.toNat) < 2 ^ 64) :
    (totalSize buckets).toNat = Lib.SlidingWindow.total (buckets.map Bucket.toNat) := by
  have hfold : ∀ start : UInt64, start.toNat + Lib.SlidingWindow.total (buckets.map Bucket.toNat) < 2 ^ 64 →
      (buckets.foldl (fun totalSize bucket => totalSize + bucket.totalSize) start).toNat =
        start.toNat + Lib.SlidingWindow.total (buckets.map Bucket.toNat) := by
    clear h
    induction buckets with
    | nil => exact fun start _ => rfl
    | cons bucket buckets ih =>
      intro start hstart
      simp only [Lib.SlidingWindow.total, List.map_cons, List.sum_cons] at hstart ih ⊢
      have hnext : (start + bucket.totalSize).toNat = start.toNat + bucket.toNat.total := by
        rw [UInt64.toNat_add, Nat.mod_eq_of_lt]
        · rfl
        · change start.toNat + bucket.toNat.total < 2 ^ 64
          omega
      rw [List.foldl_cons, ih _ (by rw [hnext]; omega), hnext, Nat.add_assoc]
  rw [totalSize, hfold 0 (by simpa using h)]
  simp

theorem run_append (settings : RateMonitorSettings) (accepts : List (Timestamp × UInt32)) (call : Timestamp × UInt32) :
    run settings (accepts ++ [call]) = accept settings (run settings accepts).1 call.1 call.2 := by
  rw [run, List.foldl_append, List.foldl_cons, List.foldl_nil, ← run]

theorem ordered_observations (h : accepts.Pairwise fun earlier later => earlier.1 ≤ later.1) :
    (accepts.map observation).Pairwise fun earlier later => earlier.1 ≤ later.1 := by
  rw [List.pairwise_map]
  exact h.imp fun hle => UInt64.le_iff_toNat_le.mp hle

theorem map_run (hbuckets : 1 ≤ settings.numBuckets) (hduration : 0 < settings.bucketDuration)
    (hordered : accepts.Pairwise fun earlier later => earlier.1 ≤ later.1) (hfits : Fits settings accepts) :
    (run settings accepts).1.map Bucket.toNat =
      (accepts.map observation).foldl (observe settings.bucketDuration.toNat (period settings)) [] := by
  have hpositive : 0 < settings.bucketDuration.toNat := UInt64.lt_iff_toNat_lt.mp hduration
  induction accepts using List.reverseRecOn with
  | nil => rfl
  | append_singleton accepts call ih =>
    rcases call with ⟨time, size⟩
    obtain ⟨hearlier, -, hlast⟩ := List.pairwise_append.mp hordered
    have hmap := ih hearlier hfits.of_append
    obtain ⟨time', htime', -, htracks⟩ := tracks_run hpositive (period settings) (ordered_observations hordered)
    obtain ⟨before, hbefore, -, htracks'⟩ := tracks_run hpositive (period settings) (ordered_observations hearlier)
    -- every bucket that is there started with an earlier call
    have hstarts : ∀ bucket ∈ (run settings accepts).1,
        bucket.startTime.toNat + settings.bucketDuration.toNat < 2 ^ 64 := by
      intro bucket hmem
      have hend := hfits.ends (time, size) (by simp)
      have hle : before ≤ time.toNat ∨ accepts = [] := by
        rcases List.eq_nil_or_concat' accepts with rfl | ⟨earlier, previous, rfl⟩
        · exact .inr rfl
        · left
          rw [hbefore (observation previous) (by simp)]
          exact UInt64.le_iff_toNat_le.mp (hlast previous (by simp) (time, size) (by simp))
      rcases hle with hle | rfl
      · have hstart := htracks'.starts bucket.toNat (hmap ▸ List.mem_map_of_mem hmem)
        simp only [Bucket.toNat] at hstart hend
        omega
      · cases hmem
    have htotal : Lib.SlidingWindow.total (observe settings.bucketDuration.toNat (period settings)
        ((accepts.map observation).foldl (observe settings.bucketDuration.toNat (period settings)) [])
        (observation (time, size))) < 2 ^ 64 := by
      have hbound := htracks.total_le_sizeWithin
      rw [period_add hbuckets, htime' (observation (time, size)) (by simp)] at hbound
      rw [List.map_append, List.map_singleton, List.foldl_append, List.foldl_cons, List.foldl_nil] at hbound
      have hfit := hfits.sizes accepts time size List.prefix_rfl
      rw [List.map_append, List.map_singleton] at hfit
      exact lt_of_le_of_lt hbound hfit
    rw [List.map_append, List.map_singleton, List.foldl_append, List.foldl_cons, List.foldl_nil, run_append, accept]
    rw [← hmap, observe, observation, ← toNat_minRelevantTimestamp hbuckets hfits.period,
      ← map_prune hstarts] at htotal ⊢
    exact map_add (fun bucket hmem => hstarts bucket ((List.dropWhile_sublist _).mem hmem)) htotal

/-- For the traffic of the window the handler is called, and for none before it, as long as everything fits. -/
theorem accept_windowSound (hbuckets : 1 ≤ settings.numBuckets) (hduration : 0 < settings.bucketDuration)
    (hordered : accepts.Pairwise fun earlier later => earlier.1 ≤ later.1) (hfits : Fits settings accepts)
    (earlier : List (Timestamp × UInt32)) (time : Timestamp) (size : UInt32)
    (hle : earlier ++ [(time, size)] <+: accepts) :
    WindowSound settings (earlier ++ [(time, size)]) time := by
  obtain ⟨later, rfl⟩ := hle
  have hfits' := hfits.of_append
  have hordered' := (List.pairwise_append.mp hordered).1
  have hmap := map_run hbuckets hduration hordered' hfits'
  obtain ⟨time', htime, -, htracks⟩ :=
    tracks_run (UInt64.lt_iff_toNat_lt.mp hduration) (period settings) (ordered_observations hordered')
  obtain rfl : time' = time.toNat := htime (observation (time, size)) (by simp)
  rw [← hmap] at htracks
  have hrecent := htracks.total_le_sizeWithin
  rw [period_add hbuckets] at hrecent
  have htotal := toNat_totalSize (lt_of_le_of_lt hrecent (hfits'.sizes earlier time size List.prefix_rfl))
  obtain ⟨old, recent, -, -, hcovers⟩ := htracks.covered
  refine ⟨?_, ?_, ?_, ?_⟩
  · rw [htotal]
    exact htracks.sizeWithin_le_total
  · rw [htotal]
    exact hrecent
  · have hdisjoint := hcovers.pairwise
    rw [List.pairwise_map] at hdisjoint
    exact hdisjoint
  · rw [run_append, accept, decide_eq_true_iff]

theorem sizes_lt_of_sum {span : Nat} (h : ((accepts.map observation).map Prod.snd).sum < 2 ^ 64)
    (earlier : List (Timestamp × UInt32)) (time : Timestamp) (size : UInt32)
    (hle : earlier ++ [(time, size)] <+: accepts) :
    sizeWithin span time.toNat ((earlier ++ [(time, size)]).map observation) < 2 ^ 64 := by
  obtain ⟨later, rfl⟩ := hle
  rw [List.map_append, List.map_append, List.sum_append] at h
  have := Lib.SlidingWindow.sizeWithin_le span time.toNat ((earlier ++ [(time, size)]).map observation)
  omega

/-- Three buckets of one second. -/
theorem accept_windowSound_sample :
    WindowSound ⟨3, 1000, 100⟩ [(5000, 60), (5400, 30), (7200, 20)] 7200 :=
  accept_windowSound (by decide) (by decide) (by decide) ⟨by decide, by simp, sizes_lt_of_sum (by decide)⟩
    [(5000, 60), (5400, 30)] 7200 20 List.prefix_rfl

theorem not_windowSound_replicate (size : UInt32) (n : Nat)
    (hwrap : 2 ^ 64 ≤ (n + 1) * size.toNat) :
    ¬WindowSound settings (List.replicate (n + 1) (0, size)) 0 := by
  intro h
  have hcomplete := h.complete
  rw [Lib.SlidingWindow.sizeWithin_of_all (by simp), List.map_replicate, List.map_replicate, List.sum_replicate_nat,
    observation] at hcomplete
  have htotal := UInt64.toNat_lt (totalSize (run settings (List.replicate (n + 1) (0, size))).1)
  simp only at hcomplete
  omega

/-- The period of five buckets wraps to zero, the end of a bucket wraps, and the sizes of one time wrap. -/
theorem not_windowSound_sample :
    ¬WindowSound ⟨5, 2 ^ 62, 100⟩ [(0, 10), (2 ^ 62 + 1, 1)] (2 ^ 62 + 1) ∧
    ¬WindowSound ⟨2, 1000, 100⟩ [(2 ^ 64 - 500, 10), (2 ^ 64 - 400, 1)] (2 ^ 64 - 400) ∧
    ¬WindowSound ⟨2, 1000, 100⟩ (List.replicate (2 ^ 32 + 1 + 1) (0, 2 ^ 32 - 1)) 0 := by
  refine ⟨fun h => ?_, fun h => ?_, not_windowSound_replicate _ (2 ^ 32 + 1) (by decide)⟩
  · exact absurd h.complete (by decide +kernel)
  · exact absurd h.complete (by decide +kernel)

end RateMonitor
end Catapult.Ionet
