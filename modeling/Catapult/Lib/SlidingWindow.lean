import Mathlib.Algebra.GroupWithZero.Nat
import Mathlib.Algebra.Order.BigOperators.Group.List
import Mathlib.Algebra.Order.Group.Nat
import Mathlib.Data.List.Induction

/-!
# Sums over a sliding window

Observations with a time and a size are collected in buckets that start with their first observation and last for a
duration. Buckets that ended before the monitored period are dropped. The total of the buckets is between the sum over
the period and the sum over one more duration.
-/

namespace Catapult.Lib.SlidingWindow

structure Bucket where
  start : Nat
  total : Nat
  deriving DecidableEq

variable {duration period time size relevant span : Nat} {bucket : Bucket} {buckets : List Bucket}
  {history recent : List (Nat × Nat)}

/-- Ended buckets are at the front. -/
def prune (duration relevant : Nat) (buckets : List Bucket) : List Bucket :=
  buckets.dropWhile fun bucket => bucket.start + duration < relevant

def add (duration time size : Nat) : List Bucket → List Bucket
  | [] => [⟨time, size⟩]
  | [bucket] =>
    if bucket.start ≤ time ∧ time < bucket.start + duration then [⟨bucket.start, bucket.total + size⟩]
    else [bucket, ⟨time, size⟩]
  | bucket :: next :: buckets => bucket :: add duration time size (next :: buckets)

def observe (duration period : Nat) (buckets : List Bucket) (observation : Nat × Nat) : List Bucket :=
  add duration observation.1 observation.2 (prune duration (observation.1 - period) buckets)

def total (buckets : List Bucket) : Nat := (buckets.map Bucket.total).sum

/-- The sizes that were observed at a time, or after it by at most a span before it. -/
def sizeWithin (span time : Nat) (history : List (Nat × Nat)) : Nat :=
  ((history.filter fun observation => time ≤ observation.1 + span).map Prod.snd).sum

/-- The buckets are disjoint and ordered, and they hold exactly these observations, one part each. -/
def Covers (duration : Nat) : List Bucket → List (Nat × Nat) → Prop
  | [], recent => recent = []
  | bucket :: buckets, recent => ∃ own rest, recent = own ++ rest ∧ bucket.total = (own.map Prod.snd).sum ∧
    (∀ observation ∈ own, bucket.start ≤ observation.1 ∧ observation.1 < bucket.start + duration) ∧
    (∀ later ∈ buckets, bucket.start + duration ≤ later.start) ∧ Covers duration buckets rest

theorem Covers.total_eq (h : Covers duration buckets recent) : total buckets = (recent.map Prod.snd).sum := by
  induction buckets generalizing recent with
  | nil =>
    rw [Covers] at h
    subst h
    rfl
  | cons bucket buckets ih =>
    obtain ⟨own, rest, rfl, htotal, -, -, hrest⟩ := h
    rw [total, List.map_cons, List.sum_cons, ← total, ih hrest, htotal, List.map_append, List.sum_append]

theorem Covers.exists_bucket (h : Covers duration buckets recent) {observation : Nat × Nat}
    (hmem : observation ∈ recent) :
    ∃ bucket ∈ buckets, bucket.start ≤ observation.1 ∧ observation.1 < bucket.start + duration := by
  induction buckets generalizing recent with
  | nil =>
    rw [Covers] at h
    subst h
    cases hmem
  | cons bucket buckets ih =>
    obtain ⟨own, rest, rfl, -, hown, -, hrest⟩ := h
    rcases List.mem_append.mp hmem with hmem | hmem
    · exact ⟨bucket, List.mem_cons_self, hown observation hmem⟩
    · obtain ⟨later, hlater, hin⟩ := ih hrest hmem
      exact ⟨later, List.mem_cons_of_mem _ hlater, hin⟩

theorem Covers.pairwise (h : Covers duration buckets recent) :
    buckets.Pairwise fun earlier later => earlier.start + duration ≤ later.start := by
  induction buckets generalizing recent with
  | nil => exact List.Pairwise.nil
  | cons bucket buckets ih =>
    obtain ⟨own, rest, -, -, -, hlater, hrest⟩ := h
    exact List.Pairwise.cons hlater (ih hrest)

theorem Covers.prune (h : Covers duration buckets recent) (relevant : Nat) :
    ∃ dropped kept, recent = dropped ++ kept ∧ (∀ observation ∈ dropped, observation.1 < relevant) ∧
      (∀ bucket ∈ SlidingWindow.prune duration relevant buckets, relevant ≤ bucket.start + duration) ∧
      Covers duration (SlidingWindow.prune duration relevant buckets) kept := by
  induction buckets generalizing recent with
  | nil =>
    rw [Covers] at h
    subst h
    exact ⟨[], [], rfl, by simp, by simp [SlidingWindow.prune], rfl⟩
  | cons bucket buckets ih =>
    have hcovers := h
    obtain ⟨own, rest, rfl, htotal, hown, hlater, hrest⟩ := h
    rw [SlidingWindow.prune, List.dropWhile_cons]
    split
    · rename_i hended
      obtain ⟨dropped, kept, rfl, hdropped, hreach, hkept⟩ := ih hrest
      refine ⟨own ++ dropped, kept, by rw [List.append_assoc], fun observation hmem => ?_, hreach, hkept⟩
      rcases List.mem_append.mp hmem with hmem | hmem
      · have := (hown observation hmem).2
        simp only [decide_eq_true_eq] at hended
        omega
      · exact hdropped observation hmem
    · rename_i hreaches
      refine ⟨[], own ++ rest, rfl, by simp, fun other hother => ?_, hcovers⟩
      simp only [decide_eq_true_eq, not_lt] at hreaches
      rcases List.mem_cons.mp hother with rfl | hother
      · exact hreaches
      · have := hlater other hother
        omega

theorem mem_of_mem_prune (h : bucket ∈ prune duration relevant buckets) : bucket ∈ buckets :=
  (List.dropWhile_sublist _).mem h

theorem start_of_mem_add (h : bucket ∈ add duration time size buckets) :
    bucket.start = time ∨ ∃ old ∈ buckets, old.start = bucket.start := by
  induction buckets with
  | nil =>
    rw [add, List.mem_singleton] at h
    exact .inl (by rw [h])
  | cons head tail ih =>
    rcases tail with _ | ⟨next, tail⟩
    · rw [add] at h
      split at h
      · rw [List.mem_singleton] at h
        exact .inr ⟨head, List.mem_singleton_self _, by rw [h]⟩
      · simp only [List.mem_cons, List.not_mem_nil, or_false] at h
        rcases h with rfl | rfl
        · exact .inr ⟨bucket, List.mem_singleton_self _, rfl⟩
        · exact .inl rfl
    · rw [add] at h
      rcases List.mem_cons.mp h with rfl | h
      · exact .inr ⟨bucket, List.mem_cons_self, rfl⟩
      · rcases ih h with htime | ⟨old, hold, heq⟩
        · exact .inl htime
        · exact .inr ⟨old, List.mem_cons_of_mem _ hold, heq⟩

theorem Covers.add (h : Covers duration buckets recent) (hduration : 0 < duration)
    (hstarts : ∀ bucket ∈ buckets, bucket.start ≤ time) (size : Nat) :
    Covers duration (add duration time size buckets) (recent ++ [(time, size)]) := by
  induction buckets generalizing recent with
  | nil =>
    rw [Covers] at h
    subst h
    exact ⟨[(time, size)], [], rfl, by simp, by simp [hduration], by simp, rfl⟩
  | cons head tail ih =>
    obtain ⟨own, rest, rfl, htotal, hown, hlater, hrest⟩ := h
    have hhead := hstarts head List.mem_cons_self
    rcases tail with _ | ⟨next, tail⟩
    · rw [Covers] at hrest
      subst hrest
      rw [SlidingWindow.add]
      split
      · rename_i hin
        refine ⟨own ++ [(time, size)], [], by simp, by simp [htotal], ?_, by simp, rfl⟩
        intro observation hmem
        rcases List.mem_append.mp hmem with hmem | hmem
        · exact hown observation hmem
        · rw [List.mem_singleton.mp hmem]
          exact hin
      · rename_i hout
        refine ⟨own, [(time, size)], by simp, htotal, hown, ?_, [(time, size)], [], rfl, by simp, by simp [hduration],
          by simp, rfl⟩
        intro later hmem
        rw [List.mem_singleton.mp hmem]
        simp only
        omega
    · rw [SlidingWindow.add]
      refine ⟨own, rest ++ [(time, size)], by rw [List.append_assoc], htotal, hown, ?_,
        ih hrest fun bucket hmem => hstarts bucket (List.mem_cons_of_mem _ hmem)⟩
      intro later hmem
      rcases start_of_mem_add hmem with htime | ⟨old, hold, heq⟩
      · -- the new bucket starts no earlier than the next one
        have hnext := hlater next List.mem_cons_self
        have := hstarts next (List.mem_cons_of_mem _ List.mem_cons_self)
        omega
      · rw [← heq]
        exact hlater old hold

/-- Just after an observation at this time: what is not in the buckets is older than the period, and no bucket ended
more than a period ago. -/
structure Tracks (duration period time : Nat) (history : List (Nat × Nat)) (buckets : List Bucket) : Prop where
  covered : ∃ old recent, history = old ++ recent ∧ (∀ observation ∈ old, observation.1 + period < time) ∧
    Covers duration buckets recent
  reach : ∀ bucket ∈ buckets, time ≤ bucket.start + duration + period
  starts : ∀ bucket ∈ buckets, bucket.start ≤ time

theorem tracks_nil (duration period : Nat) : Tracks duration period 0 [] [] :=
  ⟨⟨[], [], rfl, by simp, rfl⟩, by simp, by simp⟩

theorem Tracks.observe {time' : Nat} (h : Tracks duration period time history buckets) (hduration : 0 < duration)
    (htime : time ≤ time') (size : Nat) :
    Tracks duration period time' (history ++ [(time', size)])
      (observe duration period buckets (time', size)) := by
  obtain ⟨old, recent, rfl, hold, hcovers⟩ := h.covered
  obtain ⟨dropped, kept, rfl, hdropped, hreach, hkept⟩ := hcovers.prune (time' - period)
  have hstarts : ∀ bucket ∈ prune duration (time' - period) buckets, bucket.start ≤ time' := fun bucket hmem =>
    (h.starts bucket (mem_of_mem_prune hmem)).trans htime
  refine ⟨⟨old ++ dropped, kept ++ [(time', size)], by simp, ?_, hkept.add hduration hstarts size⟩, ?_, ?_⟩
  · intro observation hmem
    rcases List.mem_append.mp hmem with hmem | hmem
    · have := hold observation hmem
      omega
    · have := hdropped observation hmem
      omega
  · intro bucket hmem
    rcases start_of_mem_add hmem with hnew | ⟨other, hother, heq⟩
    · simp only at hnew
      omega
    · have := hreach other hother
      omega
  · intro bucket hmem
    rcases start_of_mem_add hmem with hnew | ⟨other, hother, heq⟩
    · exact hnew.le
    · exact heq ▸ hstarts other hother

theorem tracks_run (hduration : 0 < duration) (period : Nat)
    (hordered : history.Pairwise fun earlier later => earlier.1 ≤ later.1) :
    ∃ time, (∀ last ∈ history.getLast?, time = last.1) ∧
      (∀ observation ∈ history, observation.1 ≤ time) ∧
      Tracks duration period time history (history.foldl (observe duration period) []) := by
  induction history using List.reverseRecOn with
  | nil => exact ⟨0, by simp, by simp, tracks_nil duration period⟩
  | append_singleton history observation ih =>
    rw [List.pairwise_append] at hordered
    obtain ⟨hordered, -, hlast⟩ := hordered
    obtain ⟨time, htime, -, htracks⟩ := ih hordered
    have hle : ∀ earlier ∈ history, earlier.1 ≤ observation.1 := fun earlier hmem =>
      hlast earlier hmem observation (List.mem_singleton_self _)
    refine ⟨observation.1, by simp, ?_, ?_⟩
    · intro other hmem
      rcases List.mem_append.mp hmem with hmem | hmem
      · exact hle other hmem
      · rw [List.mem_singleton.mp hmem]
    · rw [List.foldl_append, List.foldl_cons, List.foldl_nil]
      rcases history.eq_nil_or_concat with rfl | ⟨earlier, previous, rfl⟩
      · exact (tracks_nil duration period).observe hduration (Nat.zero_le _) observation.2
      · refine htracks.observe hduration ?_ observation.2
        rw [htime previous (by simp)]
        exact hle previous (by simp)

theorem sizeWithin_append (span time : Nat) (history recent : List (Nat × Nat)) :
    sizeWithin span time (history ++ recent) = sizeWithin span time history + sizeWithin span time recent := by
  simp [sizeWithin, List.filter_append]

theorem sizeWithin_eq_zero (h : ∀ observation ∈ history, observation.1 + span < time) :
    sizeWithin span time history = 0 := by
  rw [sizeWithin, List.filter_eq_nil_iff.mpr]
  · rfl
  · intro observation hmem
    have := h observation hmem
    simpa using this

theorem sizeWithin_of_all (h : ∀ observation ∈ history, time ≤ observation.1 + span) :
    sizeWithin span time history = (history.map Prod.snd).sum := by
  rw [sizeWithin, List.filter_eq_self.mpr]
  intro observation hmem
  simpa using h observation hmem

theorem sizeWithin_le (span time : Nat) (history : List (Nat × Nat)) :
    sizeWithin span time history ≤ (history.map Prod.snd).sum :=
  (List.filter_sublist.map _).sum_le_sum fun _ _ => Nat.zero_le _

theorem Tracks.sizeWithin_le_total (h : Tracks duration period time history buckets) :
    sizeWithin period time history ≤ total buckets := by
  obtain ⟨old, recent, rfl, hold, hcovers⟩ := h.covered
  rw [sizeWithin_append, sizeWithin_eq_zero hold, Nat.zero_add, hcovers.total_eq]
  exact sizeWithin_le _ _ _

theorem Tracks.total_le_sizeWithin (h : Tracks duration period time history buckets) :
    total buckets ≤ sizeWithin (period + duration) time history := by
  obtain ⟨old, recent, rfl, hold, hcovers⟩ := h.covered
  have hrecent : ∀ observation ∈ recent, time ≤ observation.1 + (period + duration) := by
    intro observation hmem
    obtain ⟨bucket, hbucket, hstart, -⟩ := hcovers.exists_bucket hmem
    have := h.reach bucket hbucket
    omega
  rw [sizeWithin_append, sizeWithin_of_all hrecent, hcovers.total_eq]
  exact Nat.le_add_left _ _

end Catapult.Lib.SlidingWindow
