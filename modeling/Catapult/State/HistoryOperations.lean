import Catapult.State.HeightIndexedHistoryMap

/-!
# Histories as step functions

Every operation has a meaning for functions of the height: an addition sets the value up to the next change, pruning
forgets the values before a height, or makes the value constant after one. The map has this meaning except at height
zero (`Meets`), where an addition can lose the value.
-/

namespace Catapult.State

inductive HistoryOperation (TValue : Type) where
  | add (height : HistoryHeight) (value : TValue)
  | pruneLess (height : HistoryHeight)
  | pruneGreater (height : HistoryHeight)

section Meaning
variable {TValue : Type} [Inhabited TValue]

open Classical in
noncomputable def HistoryOperation.meaning (op : HistoryOperation TValue) (f : HistoryHeight → TValue)
    (q : HistoryHeight) : TValue :=
  match op with
  | add height value => if height ≤ q ∧ ∀ k, height ≤ k → k ≤ q → f k = f height then value else f q
  | pruneLess height => if q < height then default else f q
  | pruneGreater height => if q ≤ height then f q else f height

noncomputable def meanings (ops : List (HistoryOperation TValue)) : HistoryHeight → TValue :=
  ops.foldl (fun f op => op.meaning f) fun _ => default

end Meaning

namespace HeightIndexedHistoryMap
variable {TValue : Type} [Inhabited TValue] [DecidableEq TValue]

def apply (m : HeightIndexedHistoryMap TValue) : HistoryOperation TValue → HeightIndexedHistoryMap TValue
  | .add height value => m.add height value
  | .pruneLess height => m.pruneLess height
  | .pruneGreater height => m.pruneGreater height

def run (m : HeightIndexedHistoryMap TValue) (ops : List (HistoryOperation TValue)) : HeightIndexedHistoryMap TValue :=
  ops.foldl apply m

/-- The new entry is not lost. Pruning adds the value at its height again. -/
def Meets (m : HeightIndexedHistoryMap TValue) : HistoryOperation TValue → Prop
  | .add height value => height ≠ 0 ∨ m.Keeps value
  | .pruneLess height => height ≠ 0 ∨ m.Keeps (m.getAt 0)
  | .pruneGreater _ => True

def RunMeets (m : HeightIndexedHistoryMap TValue) : List (HistoryOperation TValue) → Prop
  | [] => True
  | op :: ops => m.Meets op ∧ RunMeets (m.apply op) ops

section Operations
variable {m : HeightIndexedHistoryMap TValue} {height q : HistoryHeight} {value : TValue}

omit [DecidableEq TValue] in
theorem constant_iff (hm : StepFunction.Canonical default m.entries) (height q : HistoryHeight) :
    (∀ k, height ≤ k → k ≤ q → m.getAt k = m.getAt height) ↔ ∀ e ∈ m.larger height, q < e.1 := by
  rw [entries_eq m height] at hm
  have hiff := @StepFunction.constant_iff _ _ _ default _ _ height q
    (larger_sorted : StepFunction.Descending (m.larger height)) hm larger_gt
    lowerBound_le
  rw [← entries_eq] at hiff
  simpa only [getAt_eq] using hiff

theorem add_meaning (hm : StepFunction.Canonical default m.entries) (hkeeps : height ≠ 0 ∨ m.Keeps value)
    (q : HistoryHeight) : (m.add height value).getAt q = (HistoryOperation.add height value).meaning m.getAt q := by
  rw [getAt_add (canonical_smaller hm) hkeeps, HistoryOperation.meaning, constant_iff hm]
  by_cases hlt : q < height
  · rw [if_pos hlt, if_neg fun h => absurd h.1 (not_le.2 hlt)]
  have hle := not_lt.1 hlt
  rw [if_neg hlt]
  by_cases hnone : ∀ e ∈ m.larger height, q < e.1
  · rw [if_pos ⟨hle, hnone⟩, StepFunction.valueAt_of_lt hnone]
  · rw [if_neg fun h => hnone h.2, getAt_of_le m hle]
    push Not at hnone
    exact StepFunction.valueAt_default hnone

def pruned (m : HeightIndexedHistoryMap TValue) (height : HistoryHeight) : HeightIndexedHistoryMap TValue :=
  ⟨m.larger height, larger_sorted⟩

section
omit [Inhabited TValue] [DecidableEq TValue]

theorem pruned_larger (m : HeightIndexedHistoryMap TValue) (height : HistoryHeight) :
    (m.pruned height).larger height = m.larger height :=
  List.takeWhile_eq_self_iff.2 fun e he => by simpa using larger_gt e he

theorem pruned_smaller (m : HeightIndexedHistoryMap TValue) (height : HistoryHeight) :
    (m.pruned height).smaller height = [] :=
  List.dropWhile_eq_nil_iff.2 fun e he => by simpa using (larger_gt e he).le

end

theorem pruneLess_cases (m : HeightIndexedHistoryMap TValue) (height : HistoryHeight) :
    m.lowerBound height = [] ∧ m.pruneLess height = m ∨
      m.lowerBound height ≠ [] ∧ m.pruneLess height = (m.pruned height).add height (m.getAt height) := by
  rw [pruneLess]
  cases hlower : m.lowerBound height with
  | nil => exact .inl ⟨rfl, rfl⟩
  | cons e l =>
    refine .inr ⟨List.cons_ne_nil _ _, ?_⟩
    rw [getAt, hlower]
    rfl

omit [DecidableEq TValue] in
theorem pruned_keeps (m : HeightIndexedHistoryMap TValue) (value : TValue) :
    (m.pruned 0).Keeps value ↔ m.Keeps value := by
  rw [Keeps, Keeps]
  refine or_congr_right (exists_congr fun e => ?_)
  constructor
  · rintro ⟨he, hne⟩
    obtain ⟨l, hl⟩ := List.head?_eq_some_iff.1 he
    have hlarger : m.larger 0 = e :: l := hl
    exact ⟨by rw [entries_eq m 0, hlarger]; rfl, hne⟩
  · rintro ⟨he, hne⟩
    obtain ⟨l, hl⟩ := List.head?_eq_some_iff.1 he
    refine ⟨?_, hne⟩
    have hlarger : m.larger 0 = e :: l.takeWhile fun e => decide (0 < e.1) := by
      have hlt : (0 : HistoryHeight) < e.1 := HistoryHeight.ne_zero_iff.1 hne.1
      rw [larger, hl, List.takeWhile_cons_of_pos (by simpa using hlt)]
    exact congrArg List.head? hlarger

theorem pruneLess_meaning (hkeeps : height ≠ 0 ∨ m.Keeps (m.getAt 0)) (q : HistoryHeight) :
    (m.pruneLess height).getAt q = (HistoryOperation.pruneLess height).meaning m.getAt q := by
  rw [HistoryOperation.meaning]
  rcases pruneLess_cases m height with ⟨hnil, hsame⟩ | ⟨-, hadd⟩
  · rw [hsame]
    split
    · rename_i hlt
      have hsmaller : m.smaller height = [] := by
        rcases lowerBound_eq m height with heq | ⟨old, heq⟩
        · exact heq.symm.trans hnil
        · exact absurd (heq.symm.trans hnil) (List.cons_ne_nil _ _)
      rw [getAt_of_lt m hlt, hsmaller]
      rfl
    · rfl
  · have hkeeps' : height ≠ 0 ∨ (m.pruned height).Keeps (m.getAt height) := by
      by_cases hzero : height = 0
      · subst hzero
        exact .inr ((pruned_keeps m _).2 (hkeeps.resolve_left fun hne => hne rfl))
      · exact .inl hzero
    rw [hadd, getAt_add (by rw [pruned_smaller]; exact StepFunction.canonical_nil _) hkeeps', pruned_larger]
    split
    · rename_i hlt
      rw [getAt_of_lt _ hlt, pruned_smaller]
      rfl
    · rename_i hle
      rw [getAt_of_le m (not_lt.1 hle)]

theorem canonical_pruneLess (hm : StepFunction.Canonical default m.entries)
    (hkeeps : height ≠ 0 ∨ m.Keeps (m.getAt 0)) : StepFunction.Canonical default (m.pruneLess height).entries := by
  rcases pruneLess_cases m height with ⟨-, hsame⟩ | ⟨-, hadd⟩
  · rwa [hsame]
  · rw [hadd]
    refine canonical_add (by rw [pruned_smaller]; exact StepFunction.canonical_nil _)
      (by rw [pruned_larger]; exact chain_larger hm) ?_
    by_cases hzero : height = 0
    · subst hzero
      exact .inr ((pruned_keeps m _).2 (hkeeps.resolve_left fun hne => hne rfl))
    · exact .inl hzero

omit [DecidableEq TValue] in
theorem pruneGreater_meaning (m : HeightIndexedHistoryMap TValue) (height q : HistoryHeight) :
    (m.pruneGreater height).getAt q = (HistoryOperation.pruneGreater height).meaning m.getAt q := by
  rw [HistoryOperation.meaning]
  split
  · rename_i hle
    rw [getAt_eq, getAt_eq, entries_eq m height,
      StepFunction.valueAt_append_of_lt fun e he => hle.trans_lt (larger_gt e he)]
    rfl
  · rename_i hnot
    rw [getAt_eq, pruneGreater, StepFunction.valueAt_of_le fun e he => (lowerBound_le e he).trans (not_le.1 hnot).le]
    rfl

theorem apply_spec (hm : StepFunction.Canonical default m.entries) {op : HistoryOperation TValue}
    (hmeets : m.Meets op) :
    StepFunction.Canonical default (m.apply op).entries ∧ ∀ q, (m.apply op).getAt q = op.meaning m.getAt q := by
  cases op with
  | add height value =>
    exact ⟨canonical_add (canonical_smaller hm) (chain_larger hm) hmeets, add_meaning hm hmeets⟩
  | pruneLess height => exact ⟨canonical_pruneLess hm hmeets, pruneLess_meaning hmeets⟩
  | pruneGreater height => exact ⟨canonical_lowerBound hm, pruneGreater_meaning m height⟩

theorem meets_of_meaning {op : HistoryOperation TValue} (h : ∀ q, (m.apply op).getAt q = op.meaning m.getAt q) :
    m.Meets op := by
  cases op with
  | add height value =>
    by_contra hnot
    rw [Meets, not_or, not_ne_iff] at hnot
    obtain ⟨rfl, hlost⟩ := hnot
    refine getAt_add_zero hlost ((h 0).trans (if_pos ⟨le_rfl, fun k hk hk' => ?_⟩))
    rw [le_antisymm hk' hk]
  | pruneLess height =>
    by_contra hnot
    rw [Meets, not_or, not_ne_iff] at hnot
    obtain ⟨rfl, hlost⟩ := hnot
    rcases pruneLess_cases m 0 with ⟨hnil, -⟩ | ⟨-, hadd⟩
    · refine hlost (.inl ?_)
      rw [getAt, hnil]
      rfl
    · have hvalue := h 0
      rw [HistoryOperation.meaning, if_neg (lt_irrefl _)] at hvalue
      rw [← pruned_keeps] at hlost
      refine getAt_add_zero hlost ?_
      rw [← hadd]
      exact hvalue
  | pruneGreater height => trivial

end Operations

structure IsStepFunction (m : HeightIndexedHistoryMap TValue) (f : HistoryHeight → TValue) : Prop where
  get : ∀ q, m.getAt q = f q
  latest : ∀ q, (∀ e ∈ m.entries, q < e.1) ∧ m.getAt q = default ∨
    ∃ e ∈ m.entries, e.1 ≤ q ∧ (∀ e' ∈ m.entries, e'.1 ≤ q → e'.1 ≤ e.1) ∧ m.getAt q = e.2
  current : ∀ q, (∀ e ∈ m.entries, e.1 ≤ q) → m.get = m.getAt q
  distinct : m.entries.IsChain fun a b => a.2 ≠ b.2
  pruneLess : ∀ height, m.Meets (.pruneLess height) → ∀ q, height ≤ q → (m.pruneLess height).getAt q = m.getAt q
  pruneGreater : ∀ height q, q ≤ height → (m.pruneGreater height).getAt q = m.getAt q
  constant : ∀ height q, height < q → (m.pruneGreater height).getAt q = m.getAt height

section Runs
variable {m : HeightIndexedHistoryMap TValue} {ops : List (HistoryOperation TValue)}

theorem run_spec (hm : StepFunction.Canonical default m.entries) (hmeets : m.RunMeets ops) :
    StepFunction.Canonical default (m.run ops).entries ∧
      (m.run ops).getAt = ops.foldl (fun f op => op.meaning f) m.getAt := by
  induction ops generalizing m with
  | nil => exact ⟨hm, rfl⟩
  | cons op ops ih =>
    obtain ⟨hcanonical, hmeaning⟩ := apply_spec hm hmeets.1
    rw [List.foldl_cons, ← funext hmeaning]
    exact ih hcanonical hmeets.2

theorem isStepFunction (hm : StepFunction.Canonical default m.entries) : m.IsStepFunction m.getAt := by
  refine ⟨fun _ => rfl, fun q => ?_, fun q hle => ?_, hm.chain, fun height hmeets q hle => ?_, fun height q hle => ?_,
    fun height q hlt => ?_⟩
  · rw [getAt_eq]
    exact StepFunction.valueAt_spec m.sorted q
  · rw [getAt_eq, StepFunction.valueAt_of_le hle]
    rfl
  · exact (pruneLess_meaning hmeets q).trans (if_neg (not_lt.2 hle))
  · exact (pruneGreater_meaning m height q).trans (if_pos hle)
  · exact (pruneGreater_meaning m height q).trans (if_neg (not_le.2 hlt))

/-- A history is a step function after every run in which no entry at height zero is lost, and the next operation has
its meaning exactly when it meets this condition. -/
theorem run_isStepFunction (ops : List (HistoryOperation TValue)) (hmeets : RunMeets {} ops) :
    (run {} ops).IsStepFunction (meanings ops) ∧
      ∀ op, (∀ q, ((run {} ops).apply op).getAt q = op.meaning (meanings ops) q) ↔ (run {} ops).Meets op := by
  obtain ⟨hcanonical, hget⟩ := run_spec (StepFunction.canonical_nil default) hmeets
  have hmeanings : (run {} ops).getAt = meanings ops := hget
  rw [← hmeanings]
  exact ⟨isStepFunction hcanonical, fun op => ⟨meets_of_meaning, fun h => (apply_spec hcanonical h).2⟩⟩

def sampleHistory : List (HistoryOperation UInt64) :=
  [.add ⟨11⟩ 12, .add ⟨22⟩ 98, .add 0 5, .add ⟨33⟩ 98, .pruneLess 0, .add ⟨22⟩ 12, .pruneLess ⟨15⟩, .pruneGreater ⟨30⟩]

theorem sampleHistory_meets : RunMeets {} sampleHistory := by
  refine ⟨.inl ?_, .inl ?_, .inr (.inr ⟨(⟨22⟩, 98), rfl, ?_, ?_⟩), .inl ?_, .inr (.inr ⟨(⟨22⟩, 98), ?_, ?_, ?_⟩),
    .inl ?_, .inl ?_, trivial, trivial⟩ <;> decide +kernel

theorem run_isStepFunction_sample : (run {} sampleHistory).IsStepFunction (meanings sampleHistory) ∧
    (run {} sampleHistory).getAt ⟨15⟩ = 12 :=
  ⟨(run_isStepFunction sampleHistory sampleHistory_meets).1, by decide +kernel⟩

/-- A value that is added at height zero is lost, and pruning at height zero changes the value there. -/
theorem not_isStepFunction_zero :
    (run ({} : HeightIndexedHistoryMap UInt64) [.add 0 7]).getAt 0 ≠ meanings [.add 0 7] 0 ∧
    (run ({} : HeightIndexedHistoryMap UInt64) [.add ⟨5⟩ 1, .add 0 2, .pruneGreater 0]).getAt 0 = 2 ∧
    ((run ({} : HeightIndexedHistoryMap UInt64) [.add ⟨5⟩ 1, .add 0 2, .pruneGreater 0]).pruneLess 0).getAt 0 = 0 := by
  refine ⟨?_, by decide +kernel, by decide +kernel⟩
  have hlost : (run ({} : HeightIndexedHistoryMap UInt64) [.add 0 7]).getAt 0 = 0 := by decide +kernel
  have hmeaning : meanings [.add 0 (7 : UInt64)] 0 = 7 := if_pos ⟨le_rfl, fun _ _ _ => rfl⟩
  rw [hlost, hmeaning]
  decide

end Runs

end HeightIndexedHistoryMap
end Catapult.State
