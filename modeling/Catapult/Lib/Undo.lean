import Mathlib.Data.Option.Basic
import Mathlib.Data.List.Basic

/-!
# Steps that undo each other

A step takes a state to a state or fails. `Undoes rel f g` says that `g` leads back from what `f` leaves, in every
state that `rel` does not distinguish from it. Steps that are undone one by one are undone together when the
order is reversed (`Undoes.foldlM`). A step that `Respects rel` does the same in states that `rel` does not distinguish.
-/

namespace Catapult
variable {σ β : Type*} {rel : σ → σ → Prop}

def Undoes (rel : σ → σ → Prop) (f g : σ → Option σ) : Prop :=
  ∀ ⦃s s'⦄, f s = some s' → ∀ t', rel t' s' → ∃ t, g t' = some t ∧ rel t s

namespace Undoes

theorem skip : Undoes rel some some := by
  rintro s s' h t' ht'
  cases h
  exact ⟨t', rfl, ht'⟩

theorem bind {f₁ g₁ f₂ g₂ : σ → Option σ} (h₁ : Undoes rel f₁ g₁) (h₂ : Undoes rel f₂ g₂) :
    Undoes rel (fun s => (f₁ s).bind f₂) (fun s => (g₂ s).bind g₁) := by
  intro s s'' h t'' ht''
  obtain ⟨s', hs', hs''⟩ := Option.bind_eq_some_iff.1 h
  obtain ⟨t', ht', hrel'⟩ := h₂ hs'' t'' ht''
  obtain ⟨t, ht, hrel⟩ := h₁ hs' t' hrel'
  exact ⟨t, by simp [ht', ht], hrel⟩

theorem foldlM {f g : σ → β → Option σ} {l : List β} (h : ∀ b ∈ l, Undoes rel (f · b) (g · b)) :
    Undoes rel (l.foldlM f) (l.reverse.foldlM g) := by
  induction l with
  | nil => exact skip
  | cons b l ih =>
    have htail := ih fun c hc => h c (List.mem_cons_of_mem _ hc)
    have hboth := (h b List.mem_cons_self).bind htail
    simpa only [List.foldlM_cons, List.reverse_cons, List.foldlM_append, List.foldlM_nil, Option.bind_eq_bind,
      Option.pure_def, Option.bind_fun_some] using hboth

theorem foldlM_of_invariant {f g : σ → β → Option σ} (inv : σ → Prop) {l : List β}
    (hinv : ∀ b ∈ l, ∀ s s', inv s → f s b = some s' → inv s')
    (h : ∀ b ∈ l, ∀ s s', inv s → f s b = some s' → ∀ t', rel t' s' → ∃ t, g t' b = some t ∧ rel t s)
    {s s' t' : σ} (hs : inv s) (hrun : l.foldlM f s = some s') (ht' : rel t' s') :
    ∃ t, l.reverse.foldlM g t' = some t ∧ rel t s := by
  induction l generalizing s with
  | nil =>
    cases hrun
    exact ⟨t', rfl, ht'⟩
  | cons b l ih =>
    rw [List.foldlM_cons, Option.bind_eq_bind] at hrun
    obtain ⟨s₁, hstep, htail⟩ := Option.bind_eq_some_iff.1 hrun
    have hs₁ := hinv b List.mem_cons_self s s₁ hs hstep
    obtain ⟨t₁, ht₁, hrel₁⟩ := ih (fun c hc => hinv c (List.mem_cons_of_mem _ hc))
      (fun c hc => h c (List.mem_cons_of_mem _ hc)) hs₁ htail
    obtain ⟨t, ht, hrel⟩ := h b List.mem_cons_self s s₁ hs hstep t₁ hrel₁
    refine ⟨t, ?_, hrel⟩
    rw [List.reverse_cons, List.foldlM_append, ht₁, Option.bind_eq_bind, Option.bind_some, List.foldlM_cons, ht]
    rfl

end Undoes

def Respects (rel : σ → σ → Prop) (f : σ → Option σ) : Prop :=
  ∀ ⦃s s' t⦄, f s = some s' → rel s t → ∃ t', f t = some t' ∧ rel s' t'

theorem Respects.foldlM {f : σ → β → Option σ} {l : List β} (h : ∀ b ∈ l, Respects rel (f · b)) :
    Respects rel (l.foldlM f) := by
  induction l with
  | nil =>
    rintro s s' t hs hrel
    cases hs
    exact ⟨t, rfl, hrel⟩
  | cons b l ih =>
    intro s s' t hs hrel
    simp only [List.foldlM_cons, Option.bind_eq_bind] at hs ⊢
    obtain ⟨s₁, hstep, hrest⟩ := Option.bind_eq_some_iff.1 hs
    obtain ⟨t₁, ht₁, hrel₁⟩ := h b List.mem_cons_self hstep hrel
    obtain ⟨t', ht', hrel'⟩ := ih (fun c hc => h c (List.mem_cons_of_mem _ hc)) hrest hrel₁
    exact ⟨t', Option.bind_eq_some_iff.2 ⟨t₁, ht₁, ht'⟩, hrel'⟩

end Catapult
