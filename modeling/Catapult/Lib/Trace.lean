import Mathlib.Data.List.Basic

/-!
# Runs of threads with the events that they leave

Threads take turns, in any order, and each step may leave an event. `Reaches init Step history state` says that some
run from `init` leads to `state` and has left the events `history`, the first one first. What a step preserves holds
at the end of every run (`invariant`), and what a step guarantees of its event holds of every event of the history
with respect to the events before it.
-/

namespace Catapult
variable {σ ε : Type*}

inductive Reaches (init : σ) (Step : σ → Option ε → σ → Prop) : List ε → σ → Prop
  | start : Reaches init Step [] init
  | next {history : List ε} {state state' : σ} {event : Option ε} :
      Reaches init Step history state → Step state event state' → Reaches init Step (history ++ event.toList) state'

namespace Reaches
variable {init : σ} {Step : σ → Option ε → σ → Prop} {history : List ε} {state : σ}

theorem invariant {Inv : List ε → σ → Prop} (hinit : Inv [] init)
    (hstep : ∀ {history s s' event}, Inv history s → Step s event s' → Inv (history ++ event.toList) s')
    (h : Reaches init Step history state) : Inv history state := by
  induction h with
  | start => exact hinit
  | next _ hnext ih => exact hstep ih hnext

theorem of_history (Allowed : List ε → ε → Prop)
    (hstep : ∀ {history s s' event}, Reaches init Step history s → Step s (some event) s' → Allowed history event)
    (h : Reaches init Step history state) {before after : List ε} {event : ε}
    (hsplit : history = before ++ event :: after) : Allowed before event := by
  induction h generalizing before after with
  | start => simp at hsplit
  | @next history s s' event' hreaches hnext ih =>
    cases event' with
    | none => exact ih (by simpa using hsplit)
    | some last =>
      -- the event is the last one, or it was there before
      rcases List.eq_nil_or_concat after with rfl | ⟨after', last', rfl⟩
      · obtain ⟨rfl, hlast⟩ := List.append_inj' hsplit rfl
        cases hlast
        exact hstep hreaches hnext
      · have hinit : history = before ++ event :: after' := by
          have hassoc : history ++ [last] = (before ++ event :: after') ++ [last'] := by simpa using hsplit
          exact (List.append_inj' hassoc rfl).1
        exact ih hinit

end Reaches
end Catapult
