import Mathlib.Data.List.Basic

/-!
# Computations with a state that may fail

Inversion of a computation that succeeded, and the rule for a relation between the state before and after it, which
holds whether the computation succeeds or fails.
-/

namespace Catapult.Stateful

variable {ε σ α β : Type} {s s' : σ} {b : β} {e : ε}

theorem get_apply : (get : EStateM ε σ σ) s = .ok s s := rfl

theorem set_apply : (set s' : EStateM ε σ PUnit) s = .ok ⟨⟩ s' := rfl

theorem modify_apply {f : σ → σ} : (modify f : EStateM ε σ PUnit) s = .ok ⟨⟩ (f s) := rfl

theorem bind_eq_ok {x : EStateM ε σ α} {f : α → EStateM ε σ β} (h : (x >>= f) s = .ok b s') :
    ∃ a t, x s = .ok a t ∧ f a t = .ok b s' := by
  change EStateM.bind x f s = _ at h
  unfold EStateM.bind at h
  split at h
  · exact ⟨_, _, by assumption, h⟩
  · cases h

theorem bind_eq_error {x : EStateM ε σ α} {f : α → EStateM ε σ β} (h : (x >>= f) s = .error e s') :
    x s = .error e s' ∨ ∃ a t, x s = .ok a t ∧ f a t = .error e s' := by
  change EStateM.bind x f s = _ at h
  unfold EStateM.bind at h
  split at h
  · exact .inr ⟨_, _, by assumption, h⟩
  · cases h
    exact .inl (by assumption)

def final : EStateM.Result ε σ α → σ
  | .ok _ s => s
  | .error _ s => s

/-- Whatever the outcome, the states before and after are related. -/
def Keeps (rel : σ → σ → Prop) (x : EStateM ε σ α) : Prop := ∀ s, rel s (final (x s))

namespace Keeps
variable {rel : σ → σ → Prop} [IsTrans σ rel] [Std.Refl rel]

omit [Std.Refl rel] in
theorem bind {x : EStateM ε σ α} {f : α → EStateM ε σ β} (hx : Keeps rel x) (hf : ∀ a, Keeps rel (f a)) :
    Keeps rel (x >>= f) := by
  intro s
  have hs := hx s
  change rel s (final (EStateM.bind x f s))
  unfold EStateM.bind
  cases h : x s with
  | ok a t =>
    rw [h] at hs
    exact IsTrans.trans (r := rel) _ _ _ hs (hf a t)
  | error e t =>
    rw [h] at hs
    exact hs

section
omit [IsTrans σ rel] [Std.Refl rel]

theorem of_eq_ok {x : EStateM ε σ α} {a : α} (hx : Keeps rel x) (h : x s = .ok a s') : rel s s' := by
  have hs := hx s
  rw [h] at hs
  exact hs

theorem of_eq_error {x : EStateM ε σ α} (hx : Keeps rel x) (h : x s = .error e s') : rel s s' := by
  have hs := hx s
  rw [h] at hs
  exact hs

end

section
omit [IsTrans σ rel]

theorem pure (a : α) : Keeps rel (Pure.pure a : EStateM ε σ α) := fun s => Std.Refl.refl s

theorem throw (e : ε) : Keeps rel (throw e : EStateM ε σ α) := fun s => Std.Refl.refl s

theorem get : Keeps rel (MonadState.get : EStateM ε σ σ) := fun s => Std.Refl.refl s

end

omit [IsTrans σ rel] [Std.Refl rel] in
theorem ite {c : Prop} [Decidable c] {x y : EStateM ε σ α} (hx : Keeps rel x) (hy : Keeps rel y) :
    Keeps rel (if c then x else y) := by
  split
  · exact hx
  · exact hy

end Keeps

end Catapult.Stateful

namespace Catapult.Fallible

variable {ε α β : Type} {b : β}

theorem bind_eq_ok {x : Except ε α} {f : α → Except ε β} (h : x >>= f = .ok b) : ∃ a, x = .ok a ∧ f a = .ok b := by
  cases x with
  | error e => cases h
  | ok a => exact ⟨a, rfl, h⟩

theorem mapM_eq_ok {f : α → Except ε β} {g : α → β} {l : List α} (h : ∀ a ∈ l, f a = .ok (g a)) :
    l.mapM f = .ok (l.map g) := by
  induction l with
  | nil => rfl
  | cons a l ih =>
    rw [List.mapM_cons, h a List.mem_cons_self, ih fun b hb => h b (List.mem_cons_of_mem _ hb)]
    rfl

theorem of_mapM_eq_ok {f : α → Except ε β} {l : List α} {bs : List β} (h : l.mapM f = .ok bs) :
    ∀ a ∈ l, ∃ b ∈ bs, f a = .ok b := by
  induction l generalizing bs with
  | nil => exact fun _ hmem => nomatch hmem
  | cons a l ih =>
    rw [List.mapM_cons] at h
    obtain ⟨b, hb, hrest⟩ := bind_eq_ok h
    obtain ⟨bs', hbs, hcons⟩ := bind_eq_ok hrest
    cases hcons
    intro a' hmem
    rcases List.mem_cons.1 hmem with rfl | hmem
    · exact ⟨b, List.mem_cons_self, hb⟩
    · obtain ⟨b', hmem', hb'⟩ := ih hbs a' hmem
      exact ⟨b', List.mem_cons_of_mem _ hmem', hb'⟩

end Catapult.Fallible
