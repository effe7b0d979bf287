import Mathlib.Data.Nat.Digits.Defs
import Mathlib.Data.List.Chain

/-!
# Numerals with separators

A numeral has digits, with single separators between them. Read from the front it is a sequence of digits that each may
have a separator behind them (`Continues`). Its value is the one of its digits, the first the highest.
-/

namespace Catapult
variable {α : Type} {isDigit : α → Bool} {separator : α}

structure Numeral (isDigit : α → Bool) (separator : α) (str : List α) : Prop where
  ne_nil : str ≠ []
  chars : ∀ ch ∈ str, isDigit ch ∨ ch = separator
  not_leading : str.head? ≠ some separator
  not_trailing : str.getLast? ≠ some separator
  not_consecutive : str.IsChain fun ch next => ¬ (ch = separator ∧ next = separator)

/-- What can stand behind a separator or a digit. -/
structure Continues (isDigit : α → Bool) (separator : α) (isLastSeparator : Bool) (str : List α) : Prop where
  chars : ∀ ch ∈ str, isDigit ch ∨ ch = separator
  not_leading : isLastSeparator → str ≠ [] ∧ str.head? ≠ some separator
  not_trailing : str.getLast? ≠ some separator
  not_consecutive : str.IsChain fun ch next => ¬ (ch = separator ∧ next = separator)

theorem numeral_iff_continues {str : List α} : Numeral isDigit separator str ↔ Continues isDigit separator true str :=
  ⟨fun h => ⟨h.chars, fun _ => ⟨h.ne_nil, h.not_leading⟩, h.not_trailing, h.not_consecutive⟩,
    fun h => ⟨(h.not_leading rfl).1, h.chars, (h.not_leading rfl).2, h.not_trailing, h.not_consecutive⟩⟩

namespace Continues
variable {isLastSeparator : Bool} {ch : α} {str : List α}

theorem nil_iff : Continues isDigit separator isLastSeparator [] ↔ isLastSeparator = false := by
  constructor
  · intro h
    exact Bool.eq_false_iff.2 fun hlast => (h.not_leading hlast).1 rfl
  · rintro rfl
    exact ⟨fun _ hmem => (nomatch hmem), Bool.noConfusion, Option.some_ne_none _ |>.symm, .nil⟩

theorem getLast?_cons_ne_iff : (ch :: str).getLast? ≠ some separator ↔
    (str = [] → ch ≠ separator) ∧ str.getLast? ≠ some separator := by
  cases str with
  | nil => simp
  | cons next str => rw [List.getLast?_cons_cons]; simp

theorem separator_cons_iff :
    Continues isDigit separator isLastSeparator (separator :: str) ↔
      isLastSeparator = false ∧ Continues isDigit separator true str := by
  constructor
  · intro h
    obtain ⟨hnext, hchain⟩ := List.isChain_cons.1 h.not_consecutive
    obtain ⟨hne, htrailing⟩ := getLast?_cons_ne_iff.1 h.not_trailing
    refine ⟨Bool.eq_false_iff.2 fun hlast => (h.not_leading hlast).2 rfl, ?_⟩
    exact ⟨fun ch hch => h.chars ch (List.mem_cons_of_mem _ hch),
      fun _ => ⟨fun hnil => hne hnil rfl, fun hhead => hnext separator hhead ⟨rfl, rfl⟩⟩, htrailing, hchain⟩
  · rintro ⟨rfl, h⟩
    obtain ⟨hne, hhead⟩ := h.not_leading rfl
    refine ⟨List.forall_mem_cons.2 ⟨.inr rfl, h.chars⟩, Bool.noConfusion, ?_, ?_⟩
    · exact getLast?_cons_ne_iff.2 ⟨fun hnil => absurd hnil hne, h.not_trailing⟩
    · exact List.isChain_cons.2 ⟨fun next hnext heq => hhead (heq.2 ▸ hnext), h.not_consecutive⟩

theorem digit_cons_iff (hdigit : isDigit ch) (hne : ch ≠ separator) :
    Continues isDigit separator isLastSeparator (ch :: str) ↔ Continues isDigit separator false str := by
  constructor
  · intro h
    exact ⟨fun ch hch => h.chars ch (List.mem_cons_of_mem _ hch), Bool.noConfusion,
      (getLast?_cons_ne_iff.1 h.not_trailing).2, (List.isChain_cons.1 h.not_consecutive).2⟩
  · intro h
    refine ⟨List.forall_mem_cons.2 ⟨.inl hdigit, h.chars⟩, fun _ => ⟨List.cons_ne_nil _ _, ?_⟩, ?_, ?_⟩
    · exact fun heq => hne (Option.some.inj heq)
    · exact getLast?_cons_ne_iff.2 ⟨fun _ => hne, h.not_trailing⟩
    · exact List.isChain_cons.2 ⟨fun _ _ heq => hne heq.1, h.not_consecutive⟩

end Continues

def digitsValue (base : Nat) (digits : List Nat) : Nat := Nat.ofDigits base digits.reverse

theorem digitsValue_append (base : Nat) (digits digits' : List Nat) : digitsValue base (digits ++ digits') =
    digitsValue base digits * base ^ digits'.length + digitsValue base digits' := by
  rw [digitsValue, List.reverse_append, Nat.ofDigits_append, List.length_reverse, digitsValue, digitsValue,
    Nat.add_comm, Nat.mul_comm]

theorem digitsValue_concat (base : Nat) (digits : List Nat) (digit : Nat) :
    digitsValue base (digits ++ [digit]) = digitsValue base digits * base + digit := by
  rw [digitsValue_append, List.length_singleton, Nat.pow_one]
  rfl

theorem digitsValue_le_append {base : Nat} (hbase : 0 < base) (digits digits' : List Nat) :
    digitsValue base digits ≤ digitsValue base (digits ++ digits') := by
  rw [digitsValue_append]
  exact Nat.le_add_right_of_le (Nat.le_mul_of_pos_right _ (Nat.pow_pos hbase))

end Catapult
