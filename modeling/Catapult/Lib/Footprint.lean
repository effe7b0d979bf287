import Mathlib.Order.Basic

/-!
# Values read from memory

A value with the end of the furthest byte that was read for it. Memory has no end here: what is read behind the end of
a buffer is whatever is there, and the reach tells.
-/

namespace Catapult

structure Reading (α : Type) where
  value : α
  reach : Nat

namespace Reading
variable {α β : Type} {n : Nat}

instance : Monad Reading where
  pure a := ⟨a, 0⟩
  bind x f := ⟨(f x.value).value, max x.reach (f x.value).reach⟩

@[simp] theorem value_bind (x : Reading α) (f : α → Reading β) : (x >>= f).value = (f x.value).value := rfl

theorem reach_bind (x : Reading α) (f : α → Reading β) : (x >>= f).reach = max x.reach (f x.value).reach := rfl

theorem lt_reach_bind {x : Reading α} {f : α → Reading β} :
    n < (x >>= f).reach ↔ n < x.reach ∨ n < (f x.value).reach := by
  rw [reach_bind]
  omega

theorem reach_bind_le {x : Reading α} {f : α → Reading β} :
    (x >>= f).reach ≤ n ↔ x.reach ≤ n ∧ (f x.value).reach ≤ n := by
  rw [reach_bind]
  omega

theorem not_lt_reach_pure {a : α} : ¬n < (pure a : Reading α).reach := Nat.not_lt_zero n

theorem lt_reach_ite_pure {c : Prop} [Decidable c] {a : α} {x : Reading α} :
    n < (if c then pure a else x).reach ↔ ¬c ∧ n < x.reach := by
  split
  · rename_i hc
    exact ⟨fun h => absurd h not_lt_reach_pure, fun h => absurd hc h.1⟩
  · rename_i hc
    exact ⟨fun h => ⟨hc, h⟩, fun h => h.2⟩

theorem lt_reach_ite_pure_right {c : Prop} [Decidable c] {a : α} {x : Reading α} :
    n < (if c then x else pure a).reach ↔ c ∧ n < x.reach := by
  split
  · rename_i hc
    exact ⟨fun h => ⟨hc, h⟩, fun h => h.2⟩
  · rename_i hc
    exact ⟨fun h => absurd h not_lt_reach_pure, fun h => absurd h.1 hc⟩

end Reading

end Catapult
