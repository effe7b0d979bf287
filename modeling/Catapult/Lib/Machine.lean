import Mathlib.Data.Nat.Basic
import Mathlib.Tactic.Choose

/-!
# Machines that read an input at every step

A machine goes from state to state until it finishes with a result or fails. `run` is the outcome after a number of
steps. The rules are the ones for such runs: an invariant of the steps holds in every state, a measure that goes down
leads to a result, and a set of states in which some input always leads to a state of the set allows a run without an
end.
-/

namespace Catapult

inductive Outcome (σ ρ : Type*) where
  | running (s : σ)
  | finished (r : ρ)
  | failed
  deriving DecidableEq

namespace Outcome
variable {σ τ ρ : Type*}

def bind (o : Outcome σ ρ) (f : σ → Outcome τ ρ) : Outcome τ ρ :=
  match o with
  | running s => f s
  | finished r => finished r
  | failed => failed

@[simp] theorem bind_running {s : σ} {f : σ → Outcome τ ρ} : (running s).bind f = f s := rfl
@[simp] theorem bind_finished {r : ρ} {f : σ → Outcome τ ρ} : (finished r).bind f = finished r := rfl
@[simp] theorem bind_failed {f : σ → Outcome τ ρ} : (failed : Outcome σ ρ).bind f = failed := rfl

theorem bind_eq_running {o : Outcome σ ρ} {f : σ → Outcome τ ρ} {t : τ} (h : o.bind f = running t) :
    ∃ s, o = running s ∧ f s = running t := by
  cases o with
  | running s => exact ⟨s, rfl, h⟩
  | finished r => cases h
  | failed => cases h

theorem bind_eq_finished {o : Outcome σ ρ} {f : σ → Outcome τ ρ} {r : ρ} (h : o.bind f = finished r) :
    o = finished r ∨ ∃ s, o = running s ∧ f s = finished r := by
  cases o with
  | running s => exact .inr ⟨s, rfl, h⟩
  | finished r' => exact .inl (by simpa using h)
  | failed => cases h

end Outcome

namespace Machine
open Outcome
variable {σ ρ ι : Type*} {step : ι → σ → Outcome σ ρ} {input : Nat → ι} {s : σ}

/-- The outcome after a number of steps, of which the `i`-th reads `input i`. -/
def run (step : ι → σ → Outcome σ ρ) (input : Nat → ι) (s : σ) : Nat → Outcome σ ρ
  | 0 => running s
  | n + 1 => (run step input s n).bind (step (input n))

@[simp] theorem run_zero : run step input s 0 = running s := rfl

theorem run_succ {n : Nat} : run step input s (n + 1) = (run step input s n).bind (step (input n)) := rfl

theorem run_succ_of_running {n : Nat} {t : σ} (h : run step input s n = running t) :
    run step input s (n + 1) = step (input n) t := by
  rw [run_succ, h, bind_running]

theorem run_comp {κ : Type*} (f : κ → ι) (input : Nat → κ) (n : Nat) :
    run step (fun i => f (input i)) s n = run (fun k => step (f k)) input s n := by
  induction n with
  | zero => rfl
  | succ n ih => rw [run_succ, run_succ, ih]

theorem run_induct {P : Nat → σ → Prop} (h0 : P 0 s)
    (hstep : ∀ i s s', P i s → step (input i) s = running s' → P (i + 1) s') {n : Nat} {s' : σ}
    (h : run step input s n = running s') : P n s' := by
  induction n generalizing s' with
  | zero =>
    simp only [run_zero, running.injEq] at h
    exact h ▸ h0
  | succ n ih =>
    obtain ⟨t, ht, hs'⟩ := bind_eq_running h
    exact hstep n t s' (ih ht) hs'

theorem exists_last_step {n : Nat} {r : ρ} (h : run step input s n = finished r) :
    ∃ m t, run step input s m = running t ∧ step (input m) t = finished r := by
  induction n with
  | zero => cases h
  | succ n ih =>
    rcases bind_eq_finished h with h | ⟨t, ht, hr⟩
    · exact ih h
    · exact ⟨n, t, ht, hr⟩

theorem run_add_of_finished {n : Nat} {r : ρ} (h : run step input s n = finished r) (k : Nat) :
    run step input s (n + k) = finished r := by
  induction k with
  | zero => exact h
  | succ k ih => rw [← Nat.add_assoc, run_succ, ih, bind_finished]

theorem run_of_last_step {m k : Nat} {t : σ} {r : ρ} (hm : run step input s m = running t)
    (hstep : step (input m) t = finished r) (hk : m < k) : run step input s k = finished r := by
  have hend : run step input s (m + 1) = finished r := (run_succ_of_running hm).trans hstep
  obtain ⟨j, rfl⟩ := Nat.exists_eq_add_of_le hk
  exact run_add_of_finished hend j

theorem run_add_of_failed {n : Nat} (h : run step input s n = failed) (k : Nat) :
    run step input s (n + k) = failed := by
  induction k with
  | zero => exact h
  | succ k ih => rw [← Nat.add_assoc, run_succ, ih, bind_failed]

theorem not_finished_of_failed {n : Nat} (h : run step input s n = failed) (m : Nat) (r : ρ) :
    run step input s m ≠ finished r := by
  intro hm
  have h₁ := run_add_of_failed h m
  have h₂ := run_add_of_finished hm n
  rw [Nat.add_comm, h₁] at h₂
  cases h₂

theorem exists_finished_of_measure {P : σ → Prop} {Q : ρ → Prop} (μ : σ → Nat)
    (hstep : ∀ i s, P s → (∃ r, step (input i) s = finished r ∧ Q r) ∨
      ∃ s', step (input i) s = running s' ∧ P s' ∧ μ s' < μ s)
    {n : Nat} {t : σ} (hn : run step input s n = running t) (ht : P t) :
    ∃ m r, run step input s m = finished r ∧ Q r := by
  induction hμ : μ t using Nat.strong_induction_on generalizing n t with
  | _ k ih =>
    subst hμ
    rcases hstep n t ht with ⟨r, hr, hQ⟩ | ⟨t', ht', hP, hlt⟩
    · exact ⟨n + 1, r, (run_succ_of_running hn).trans hr, hQ⟩
    · have hn' : run step input s (n + 1) = running t' := (run_succ_of_running hn).trans ht'
      exact ih (μ t') hlt hn' hP rfl

theorem exists_input_forever {P : σ → Prop} (h0 : P s)
    (hstep : ∀ s, P s → ∃ i s', step i s = running s' ∧ P s') :
    ∃ input, ∀ n, ∃ s', run step input s n = running s' ∧ P s' := by
  choose answer next hnext hP using hstep
  -- the states of the run, each with the proof that it is in the set
  let states : Nat → { t // P t } := fun n => n.rec ⟨s, h0⟩ fun _ t => ⟨next t.1 t.2, hP t.1 t.2⟩
  refine ⟨fun n => answer (states n).1 (states n).2, fun n => ⟨(states n).1, ?_, (states n).2⟩⟩
  induction n with
  | zero => rfl
  | succ n ih => exact (run_succ_of_running ih).trans (hnext _ _)

end Machine
end Catapult
