import Catapult.Lib.Numerals
import Mathlib.Data.UInt

/-!
# Unsigned numbers of the configuration

A number is parsed digit by digit in the width of its type, and an overflow is taken for a digit that makes the number
smaller. A number that wraps around to a greater one is accepted.
-/

namespace Catapult.Utils

structure Traits where
  base : Nat
  isDigit : UInt8 → Bool
  getByteValue : UInt8 → UInt8

def decimalTraits : Traits where
  base := 10
  isDigit ch := '0'.toUInt8 ≤ ch && ch ≤ '9'.toUInt8
  getByteValue ch := ch - '0'.toUInt8

def hexTraits : Traits where
  base := 16
  isDigit ch := ('0'.toUInt8 ≤ ch && ch ≤ '9'.toUInt8) || ('A'.toUInt8 ≤ ch && ch ≤ 'F'.toUInt8)
  getByteValue ch := if ch ≤ '9'.toUInt8 then ch - '0'.toUInt8 else ch - 'A'.toUInt8 + 10

def digitSeparator : UInt8 := '\''.toUInt8

variable {w : Nat} (traits : Traits)

def addDigit (result : BitVec w) (ch : UInt8) : Option (BitVec w) :=
  let next := result * BitVec.ofNat w traits.base + BitVec.ofNat w (traits.getByteValue ch).toNat
  if next < result then none else some next

def parseDigits : List UInt8 → BitVec w → Bool → Option (BitVec w)
  | [], result, isLastCharSeparator => if isLastCharSeparator then none else some result
  | ch :: str, result, isLastCharSeparator =>
    let isCharSeparator := digitSeparator == ch
    let isValidChar := traits.isDigit ch || (isCharSeparator && !isLastCharSeparator)
    if !isValidChar then none
    else if isCharSeparator then parseDigits str result isCharSeparator
    else do
      let result' ← addDigit traits result ch
      parseDigits str result' isCharSeparator

/-- The result and the parsed value, which is the old one when the result is false. -/
def tryParseUnsignedIntValue (str : List UInt8) (parsedValue : BitVec w) : Bool × BitVec w :=
  if str.isEmpty then (false, parsedValue)
  else
    match parseDigits traits str (0 : BitVec w) true with
    | none => (false, parsedValue)
    | some result => (true, result)

def tryParseUnsignedIntDecimalValue (str : List UInt8) (parsedValue : BitVec w) : Bool × BitVec w :=
  tryParseUnsignedIntValue decimalTraits str parsedValue

def tryParseUnsignedIntHexValue (str : List UInt8) (parsedValue : BitVec w) : Bool × BitVec w :=
  if str.length < 2 ∨ str.take 2 ≠ ['0'.toUInt8, 'x'.toUInt8] then (false, parsedValue)
  else tryParseUnsignedIntValue hexTraits (str.drop 2) parsedValue

abbrev IsNumeral (str : List UInt8) : Prop := Numeral traits.isDigit digitSeparator str

def digitsOf (str : List UInt8) : List UInt8 := str.filter traits.isDigit

def valueOf (digits : List UInt8) : Nat :=
  digitsValue traits.base (digits.map fun ch => (traits.getByteValue ch).toNat)

/-- The numbers of the width are parsed and nothing else is. -/
structure ParsesExactly (lead str : List UInt8) (parsedValue : BitVec w) (result : Bool × BitVec w) : Prop where
  true_iff : result.1 = true ↔
    ∃ numeral, str = lead ++ numeral ∧ IsNumeral traits numeral ∧ valueOf traits (digitsOf traits numeral) < 2 ^ w
  value : ∀ numeral, str = lead ++ numeral → result.1 = true → result.2.toNat = valueOf traits (digitsOf traits numeral)
  untouched : result.1 = false → result.2 = parsedValue

/-- Some digit makes the number, modulo 2^w, smaller. -/
def Decreases (w : Nat) (digits : List UInt8) : Prop :=
  ∃ k < digits.length, valueOf traits (digits.take (k + 1)) % 2 ^ w < valueOf traits (digits.take k) % 2 ^ w

/-- No numeral of a number that does not fit goes on growing modulo 2^w. -/
def OverflowSeen (w : Nat) (lead str : List UInt8) : Prop :=
  ∀ numeral, str = lead ++ numeral → IsNumeral traits numeral →
    valueOf traits (digitsOf traits numeral) < 2 ^ w ∨ Decreases traits w (digitsOf traits numeral)

section Digits
variable {traits} {digits digits' : List UInt8} {ch : UInt8}

theorem valueOf_concat : valueOf traits (digits ++ [ch]) =
    valueOf traits digits * traits.base + (traits.getByteValue ch).toNat := by
  rw [valueOf, List.map_append, List.map_singleton, digitsValue_concat]
  rfl

theorem valueOf_le_append (hbase : 0 < traits.base) : valueOf traits digits ≤ valueOf traits (digits ++ digits') := by
  rw [valueOf, valueOf, List.map_append]
  exact digitsValue_le_append hbase _ _

theorem addDigit_eq : addDigit traits (BitVec.ofNat w (valueOf traits digits)) ch =
    if valueOf traits (digits ++ [ch]) % 2 ^ w < valueOf traits digits % 2 ^ w then none
    else some (BitVec.ofNat w (valueOf traits (digits ++ [ch]))) := by
  have hnext : BitVec.ofNat w (valueOf traits digits) * BitVec.ofNat w traits.base +
      BitVec.ofNat w (traits.getByteValue ch).toNat = BitVec.ofNat w (valueOf traits (digits ++ [ch])) := by
    rw [valueOf_concat, BitVec.ofNat_add, BitVec.ofNat_mul]
  rw [addDigit, hnext]
  simp only [BitVec.lt_def, BitVec.toNat_ofNat]

/-- By induction on the digits that are left. -/
theorem foldlM_addDigit_eq_some_iff {value : BitVec w} :
    digits'.foldlM (addDigit traits) (BitVec.ofNat w (valueOf traits digits)) = some value ↔
      (¬ ∃ k < digits'.length, valueOf traits (digits ++ digits'.take (k + 1)) % 2 ^ w <
        valueOf traits (digits ++ digits'.take k) % 2 ^ w) ∧
      BitVec.ofNat w (valueOf traits (digits ++ digits')) = value := by
  induction digits' generalizing digits with
  | nil => simp
  | cons ch digits' ih =>
    have hstep : (∃ k < (ch :: digits').length, valueOf traits (digits ++ (ch :: digits').take (k + 1)) % 2 ^ w <
          valueOf traits (digits ++ (ch :: digits').take k) % 2 ^ w) ↔
        valueOf traits (digits ++ [ch]) % 2 ^ w < valueOf traits digits % 2 ^ w ∨
          ∃ k < digits'.length, valueOf traits (digits ++ [ch] ++ digits'.take (k + 1)) % 2 ^ w <
            valueOf traits (digits ++ [ch] ++ digits'.take k) % 2 ^ w := by
      rw [List.length_cons, Nat.exists_lt_succ_left]
      simp
    rw [List.foldlM_cons, addDigit_eq, hstep]
    split
    next hdecreases => simp [hdecreases]
    next hge =>
      rw [or_iff_right hge]
      simpa using @ih (digits ++ [ch])

theorem parseDigits_eq_some_iff (hseparator : traits.isDigit digitSeparator = false) {str : List UInt8}
    {result value : BitVec w} {isLastCharSeparator : Bool} :
    parseDigits traits str result isLastCharSeparator = some value ↔
      Continues traits.isDigit digitSeparator isLastCharSeparator str ∧
        (digitsOf traits str).foldlM (addDigit traits) result = some value := by
  induction str generalizing result isLastCharSeparator with
  | nil =>
    rw [parseDigits, Continues.nil_iff]
    cases isLastCharSeparator with
    | true => simp
    | false => simp [digitsOf]
  | cons ch str ih =>
    rw [parseDigits]
    by_cases hsep : digitSeparator = ch
    · subst hsep
      rw [Continues.separator_cons_iff, digitsOf,
        List.filter_cons_of_neg (by rw [hseparator]; exact Bool.false_ne_true)]
      cases isLastCharSeparator with
      | true => simp [hseparator]
      | false => simpa [hseparator, digitsOf] using @ih result true
    · have hne : (digitSeparator == ch) = false := beq_false_of_ne hsep
      cases hdigit : traits.isDigit ch with
      | false =>
        have hchars (h : Continues traits.isDigit digitSeparator isLastCharSeparator (ch :: str)) : False := by
          rcases h.chars ch List.mem_cons_self with h | h
          · rw [hdigit] at h
            cases h
          · exact hsep h.symm
        simp only [hne, Bool.false_and, Bool.or_false, Bool.not_false, if_true]
        exact ⟨fun h => (nomatch h), fun h => (hchars h.1).elim⟩
      | true =>
        rw [Continues.digit_cons_iff hdigit (Ne.symm hsep), digitsOf, List.filter_cons_of_pos hdigit, List.foldlM_cons]
        simp only [hne, Bool.true_or, Bool.not_true, Bool.false_eq_true, if_false]
        cases addDigit traits result ch with
        | none => simp
        | some result' => exact ih

end Digits

section Exactness
variable {traits} {lead str numeral : List UInt8} {parsedValue : BitVec w}

theorem tryParseUnsignedIntValue_cases (hseparator : traits.isDigit digitSeparator = false) :
    (IsNumeral traits str ∧ ¬ Decreases traits w (digitsOf traits str)) ∧
        tryParseUnsignedIntValue traits str parsedValue =
          (true, BitVec.ofNat w (valueOf traits (digitsOf traits str))) ∨
      ¬ (IsNumeral traits str ∧ ¬ Decreases traits w (digitsOf traits str)) ∧
        tryParseUnsignedIntValue traits str parsedValue = (false, parsedValue) := by
  have hsome {value : BitVec w} : parseDigits traits str 0 true = some value ↔
      (IsNumeral traits str ∧ ¬ Decreases traits w (digitsOf traits str)) ∧
        BitVec.ofNat w (valueOf traits (digitsOf traits str)) = value := by
    rw [parseDigits_eq_some_iff hseparator, ← numeral_iff_continues, and_assoc]
    exact and_congr_right fun _ => @foldlM_addDigit_eq_some_iff _ _ [] _ _
  have hparse : tryParseUnsignedIntValue traits str parsedValue =
      match parseDigits traits str (0 : BitVec w) true with
      | none => (false, parsedValue)
      | some result => (true, result) := by
    cases str with
    | nil => rfl
    | cons ch str => rfl
  rw [hparse]
  cases h : parseDigits traits str (0 : BitVec w) true with
  | some result =>
    obtain ⟨hnumeral, rfl⟩ := hsome.1 h
    exact .inl ⟨hnumeral, rfl⟩
  | none =>
    refine .inr ⟨fun hnumeral => ?_, rfl⟩
    rw [hsome.2 ⟨hnumeral, rfl⟩] at h
    cases h

theorem not_decreases_of_lt (hbase : 0 < traits.base) {digits : List UInt8} (h : valueOf traits digits < 2 ^ w) :
    ¬ Decreases traits w digits := by
  rintro ⟨k, hk, hlt⟩
  have hle (n : Nat) : valueOf traits (digits.take n) ≤ valueOf traits digits := by
    have hle := @valueOf_le_append _ (digits.take n) (digits.drop n) hbase
    rwa [List.take_append_drop] at hle
  have hnext : valueOf traits (digits.take k) ≤ valueOf traits (digits.take (k + 1)) := by
    rw [List.take_succ_eq_append_getElem hk]
    exact valueOf_le_append hbase
  rw [Nat.mod_eq_of_lt (Nat.lt_of_le_of_lt (hle _) h), Nat.mod_eq_of_lt (Nat.lt_of_le_of_lt (hle _) h)] at hlt
  exact absurd hnext (Nat.not_le.2 hlt)

theorem parsesExactly_iff (hseparator : traits.isDigit digitSeparator = false) (hbase : 0 < traits.base) :
    ParsesExactly traits lead (lead ++ str) parsedValue (tryParseUnsignedIntValue traits str parsedValue) ↔
      OverflowSeen traits w lead (lead ++ str) := by
  rcases @tryParseUnsignedIntValue_cases _ _ str parsedValue hseparator with
    ⟨⟨hnumeral, hgrows⟩, heq⟩ | ⟨hnot, heq⟩
  · rw [heq]
    constructor
    · intro hexact numeral hstr _
      obtain ⟨numeral', hstr', -, hlt⟩ := hexact.true_iff.1 rfl
      obtain rfl := List.append_cancel_left (hstr.symm.trans hstr')
      exact .inl hlt
    · intro hseen
      have hlt := (hseen str rfl hnumeral).resolve_right hgrows
      refine ⟨⟨fun _ => ⟨str, rfl, hnumeral, hlt⟩, fun _ => rfl⟩, fun numeral hstr _ => ?_, Bool.noConfusion⟩
      rw [← List.append_cancel_left hstr, BitVec.toNat_ofNat, Nat.mod_eq_of_lt hlt]
  · rw [heq]
    refine iff_of_true ⟨⟨Bool.noConfusion, ?_⟩, fun _ _ => Bool.noConfusion, fun _ => rfl⟩ ?_
    · rintro ⟨numeral, hstr, hnumeral, hlt⟩
      obtain rfl := List.append_cancel_left hstr
      exact absurd ⟨hnumeral, not_decreases_of_lt hbase hlt⟩ hnot
    · intro numeral hstr hnumeral
      obtain rfl := List.append_cancel_left hstr
      exact or_iff_not_imp_right.2 fun hgrows => absurd ⟨hnumeral, hgrows⟩ hnot

def hexLead : List UInt8 := ['0'.toUInt8, 'x'.toUInt8]

/-- Numbers are parsed exactly when every overflow makes a number smaller. -/
theorem configurationNumbers_exact_iff (str : List UInt8) (parsedValue : BitVec w) :
    (ParsesExactly decimalTraits [] str parsedValue (tryParseUnsignedIntDecimalValue str parsedValue) ↔
      OverflowSeen decimalTraits w [] str) ∧
    (ParsesExactly hexTraits hexLead str parsedValue (tryParseUnsignedIntHexValue str parsedValue) ↔
      OverflowSeen hexTraits w hexLead str) := by
  refine ⟨@parsesExactly_iff _ _ [] str parsedValue (by decide) (by decide), ?_⟩
  rw [tryParseUnsignedIntHexValue]
  split
  next hlead =>
    have hne (numeral : List UInt8) : str ≠ hexLead ++ numeral := by
      rintro rfl
      rcases hlead with hlt | hne
      · rw [List.length_append] at hlt
        exact absurd hlt (Nat.not_lt.2 (Nat.le_add_right _ _))
      · exact hne rfl
    refine iff_of_true ⟨⟨Bool.noConfusion, ?_⟩, fun _ _ => Bool.noConfusion, fun _ => rfl⟩ ?_
    · rintro ⟨numeral, hstr, -⟩
      exact absurd hstr (hne numeral)
    · intro numeral hstr
      exact absurd hstr (hne numeral)
  next hlead =>
    obtain ⟨-, htake⟩ := not_or.1 hlead
    have hstr : str = hexLead ++ str.drop 2 := by
      rw [← List.take_append_drop 2 str, Decidable.not_not.1 htake]
      rfl
    have hiff := @parsesExactly_iff _ hexTraits hexLead (str.drop 2) parsedValue (by decide) (by decide)
    rwa [← hstr] at hiff

/-- "300" is parsed as 44 in 8 bits. -/
theorem not_parsesExactly_sample :
    tryParseUnsignedIntDecimalValue ("300".toList.map Char.toUInt8) (7 : BitVec 8) = (true, 44) ∧
      ¬ ParsesExactly decimalTraits [] ("300".toList.map Char.toUInt8) (7 : BitVec 8)
        (tryParseUnsignedIntDecimalValue ("300".toList.map Char.toUInt8) 7) := by
  have hparse : tryParseUnsignedIntDecimalValue ("300".toList.map Char.toUInt8) (7 : BitVec 8) = (true, 44) := by decide
  refine ⟨hparse, fun hexact => ?_⟩
  have hvalue := hexact.value _ rfl (congrArg Prod.fst hparse)
  rw [hparse] at hvalue
  exact absurd hvalue (by decide)

end Exactness
end Catapult.Utils
