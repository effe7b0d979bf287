import Mathlib.Data.Finset.Card
import Mathlib.Data.Finset.Union

/-!
# Threshold formulas

A leaf holds for the sets that have it, and a threshold when at least `k` of the formulas below it hold. Formulas are
monotone and only depend on their leaves. A formula with all its leaves holds when no threshold exceeds the number of
the formulas below it.
-/

namespace Catapult

inductive ThresholdFormula (α : Type*)
  | leaf (a : α)
  | threshold (k : Nat) (names : Finset α) (below : α → ThresholdFormula α)

namespace ThresholdFormula

variable {α : Type*} [DecidableEq α] {s t : Finset α} {φ : ThresholdFormula α}

def holds (s : Finset α) : ThresholdFormula α → Bool
  | leaf a => decide (a ∈ s)
  | threshold k names below => decide (k ≤ (names.filter fun a => (below a).holds s).card)

def leaves : ThresholdFormula α → Finset α
  | leaf a => {a}
  | threshold _ names below => names.biUnion fun a => (below a).leaves

/-- No threshold exceeds the number of the formulas below it. -/
def Attainable : ThresholdFormula α → Prop
  | leaf _ => True
  | threshold k names below => k ≤ names.card ∧ ∀ a ∈ names, (below a).Attainable

theorem holds_mono (h : s ⊆ t) (hs : φ.holds s) : φ.holds t := by
  induction φ with
  | leaf a =>
    rw [holds, decide_eq_true_eq] at hs ⊢
    exact h hs
  | threshold k names below ih =>
    rw [holds, decide_eq_true_eq] at hs ⊢
    exact hs.trans (Finset.card_le_card (Finset.monotone_filter_right _ fun a _ => ih a))

theorem holds_congr (h : ∀ a ∈ φ.leaves, a ∈ s ↔ a ∈ t) : φ.holds s = φ.holds t := by
  induction φ with
  | leaf a => exact decide_eq_decide.2 (h a (Finset.mem_singleton_self a))
  | threshold k names below ih =>
    have hfilter : (names.filter fun a => (below a).holds s) = names.filter fun a => (below a).holds t := by
      apply Finset.filter_congr
      intro a ha
      rw [ih a fun b hb => h b (Finset.mem_biUnion.2 ⟨a, ha, hb⟩)]
    rw [holds, holds, hfilter]

theorem holds_inter_leaves : φ.holds (s ∩ φ.leaves) = φ.holds s := by
  apply holds_congr
  intro a ha
  simp [ha]

theorem holds_of_leaves_subset (h : φ.Attainable) (hs : φ.leaves ⊆ s) : φ.holds s := by
  induction φ with
  | leaf a =>
    rw [holds, decide_eq_true_eq]
    exact Finset.singleton_subset_iff.1 hs
  | threshold k names below ih =>
    obtain ⟨hk, hbelow⟩ := h
    have hall : (names.filter fun a => (below a).holds s) = names :=
      Finset.filter_true_of_mem fun a ha => ih a (hbelow a ha) ((Finset.subset_biUnion_of_mem _ ha).trans hs)
    rwa [holds, hall, decide_eq_true_eq]

end ThresholdFormula
end Catapult
