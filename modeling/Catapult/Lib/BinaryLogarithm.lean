import Mathlib.Data.Nat.Log
import Mathlib.Tactic.Ring

/-!
# Binary logarithms digit by digit

A number between one and two with `p` binary places is squared in each round, and the next digit of its logarithm is
one when the square is at least two. The squares are truncated, but the logarithm is still monotone: digits and
mantissa are ordered lexicographically, and a round keeps the order.
-/

namespace Catapult.BinaryLogarithm

/-- The digits so far, and the mantissa that is left. -/
structure State where
  digits : Nat
  mantissa : Nat
  deriving DecidableEq

def next (p : Nat) (s : State) : State :=
  if 2 ^ (p + 1) ≤ s.mantissa * s.mantissa / 2 ^ p then
    ⟨2 * s.digits + 1, s.mantissa * s.mantissa / 2 ^ p / 2⟩
  else ⟨2 * s.digits, s.mantissa * s.mantissa / 2 ^ p⟩

def Normal (p : Nat) (s : State) : Prop := 2 ^ p ≤ s.mantissa ∧ s.mantissa < 2 ^ (p + 1)

/-- The order by the digits, and then by the mantissa. -/
def Le (s s' : State) : Prop := s.digits < s'.digits ∨ s.digits = s'.digits ∧ s.mantissa ≤ s'.mantissa

theorem Le.digits_le {s s' : State} (h : Le s s') : s.digits ≤ s'.digits := by
  rcases h with hlt | ⟨heq, -⟩
  · exact hlt.le
  · exact heq.le

variable {p : Nat} {s s' : State}

theorem Normal.next (h : Normal p s) : Normal p (next p s) := by
  obtain ⟨hlow, hhigh⟩ := h
  have hpos : 0 < 2 ^ p := Nat.two_pow_pos p
  have hsquare : 2 ^ p ≤ s.mantissa * s.mantissa / 2 ^ p := by
    rw [Nat.le_div_iff_mul_le hpos]
    exact Nat.mul_le_mul hlow hlow
  have hbound : s.mantissa * s.mantissa / 2 ^ p < 2 * 2 ^ (p + 1) := by
    rw [Nat.div_lt_iff_lt_mul hpos]
    calc s.mantissa * s.mantissa < 2 ^ (p + 1) * 2 ^ (p + 1) := Nat.mul_lt_mul'' hhigh hhigh
      _ = 2 * 2 ^ (p + 1) * 2 ^ p := by ring
  rw [BinaryLogarithm.next]
  split
  · case isTrue htwo =>
    rw [Nat.pow_succ] at htwo
    exact ⟨by dsimp only; omega, by dsimp only; omega⟩
  · case isFalse htwo => exact ⟨hsquare, Nat.lt_of_not_le htwo⟩

theorem next_le (h : Le s s') : Le (next p s) (next p s') := by
  rcases h with hlt | ⟨heq, hle⟩
  · left
    rw [next, next]
    split <;> split <;> dsimp only <;> omega
  · have hsquare : s.mantissa * s.mantissa / 2 ^ p ≤ s'.mantissa * s'.mantissa / 2 ^ p :=
      Nat.div_le_div_right (Nat.mul_le_mul hle hle)
    rw [next, next, heq]
    by_cases htwo : 2 ^ (p + 1) ≤ s.mantissa * s.mantissa / 2 ^ p
    · rw [if_pos htwo, if_pos (htwo.trans hsquare)]
      exact Or.inr ⟨rfl, Nat.div_le_div_right hsquare⟩
    · rw [if_neg htwo]
      split
      · exact Or.inl (Nat.lt_succ_self _)
      · exact Or.inr ⟨rfl, hsquare⟩

theorem Normal.iterate (h : Normal p s) (n : Nat) : Normal p ((BinaryLogarithm.next p)^[n] s) := by
  induction n with
  | zero => exact h
  | succ n ih =>
    rw [Function.iterate_succ_apply']
    exact ih.next

theorem iterate_le (h : Le s s') (n : Nat) : Le ((next p)^[n] s) ((next p)^[n] s') := by
  induction n with
  | zero => exact h
  | succ n ih =>
    rw [Function.iterate_succ_apply', Function.iterate_succ_apply']
    exact next_le ih

theorem digits_next (p : Nat) (s : State) :
    2 * s.digits ≤ (next p s).digits ∧ (next p s).digits < 2 * (s.digits + 1) := by
  rw [next]
  split <;> exact ⟨by dsimp only; omega, by dsimp only; omega⟩

theorem digits_iterate (p : Nat) (s : State) (n : Nat) :
    s.digits * 2 ^ n ≤ ((next p)^[n] s).digits ∧ ((next p)^[n] s).digits < (s.digits + 1) * 2 ^ n := by
  induction n with
  | zero => simp
  | succ n ih =>
    rw [Function.iterate_succ_apply', Nat.pow_succ, ← Nat.mul_assoc, ← Nat.mul_assoc]
    have hnext := digits_next p ((next p)^[n] s)
    omega

/-- The number is scaled to a mantissa, and the digits are its exponent. -/
structure Start (p : Nat) (value : Nat) (s : State) : Prop where
  normal : Normal p s
  digits_le : s.digits ≤ p
  mantissa : s.mantissa = value * 2 ^ (p - s.digits)

namespace Start
variable {value value' : Nat}

theorem le_value (h : Start p value s) : 2 ^ s.digits ≤ value := by
  have hlow := h.normal.1
  rw [h.mantissa, ← Nat.sub_add_cancel h.digits_le, Nat.pow_add, Nat.add_sub_cancel, Nat.mul_comm value] at hlow
  exact Nat.le_of_mul_le_mul_left hlow (Nat.two_pow_pos _)

theorem value_lt (h : Start p value s) : value < 2 ^ (s.digits + 1) := by
  have hhigh := h.normal.2
  have hexp : p + 1 = p - s.digits + (s.digits + 1) := by
    have hle := h.digits_le
    omega
  rw [h.mantissa, hexp, Nat.pow_add, Nat.mul_comm value] at hhigh
  exact Nat.lt_of_mul_lt_mul_left hhigh

theorem le (h : Start p value s) (h' : Start p value' s') (hle : value ≤ value') : Le s s' := by
  rcases Nat.lt_trichotomy s.digits s'.digits with hlt | heq | hgt
  · exact Or.inl hlt
  · refine Or.inr ⟨heq, ?_⟩
    rw [h.mantissa, h'.mantissa, heq]
    exact Nat.mul_le_mul_right _ hle
  · have hpow : 2 ^ (s'.digits + 1) ≤ 2 ^ s.digits := Nat.pow_le_pow_right (by decide) hgt
    have hfirst := h.le_value
    have hsecond := h'.value_lt
    omega

end Start

end Catapult.BinaryLogarithm
