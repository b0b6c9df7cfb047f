import Concatenative.Text.Numeral

/-!
# Digits of numbers

Reading the digits of a number gives the number back, in every base up to sixteen.
-/

namespace Concatenative
namespace Text

theorem digitValue_digitChar {digit : Nat} (small : digit < 16) :
    digitValue digit.digitChar = digit := by
  revert digit
  decide

theorem numberOf_append_singleton (base : Nat) (digits : List Char) (digit : Char) :
    numberOf base (digits ++ [digit]) = base * numberOf base digits + digitValue digit := by
  simp [numberOf]

theorem numberOf_toDigits
    {base : Nat}
    (atLeast : 1 < base)
    (atMost : base ≤ 16)
    (number : Nat) :
    numberOf base (Nat.toDigits base number) = number := by
  induction number using Nat.strongRecOn with
  | ind number inductionHypothesis =>
      by_cases single : number < base
      · have value : digitValue number.digitChar = number := digitValue_digitChar (by omega)
        rw [Nat.toDigits_of_lt_base single]
        simpa [numberOf] using value
      · have positive : 0 < number := by omega
        have smaller := inductionHypothesis (number / base) (Nat.div_lt_self positive atLeast)
        have lastDigit : number % base < base := Nat.mod_lt number (by omega)
        have value : digitValue (number % base).digitChar = number % base :=
          digitValue_digitChar (by omega)
        rw [Nat.toDigits_of_base_le atLeast (by omega), numberOf_append_singleton, smaller, value]
        exact Nat.div_add_mod number base

/-- What holds of every digit of a base holds of every character of a number. -/
theorem forall_mem_toDigits
    {base : Nat}
    (atLeast : 1 < base)
    {property : Char → Prop}
    (everyDigit : ∀ digit < base, property digit.digitChar)
    (number : Nat) :
    ∀ c ∈ Nat.toDigits base number, property c := by
  induction number using Nat.strongRecOn with
  | ind number inductionHypothesis =>
      intro c present
      by_cases single : number < base
      · rw [Nat.toDigits_of_lt_base single, List.mem_singleton] at present
        rw [present]
        exact everyDigit number single
      · rw [Nat.toDigits_of_base_le atLeast (by omega), List.mem_append, List.mem_singleton]
          at present
        rcases present with earlier | final
        · exact inductionHypothesis _ (Nat.div_lt_self (by omega) atLeast) c earlier
        · rw [final]
          exact everyDigit _ (Nat.mod_lt number (by omega))

theorem isDecimalDigit_of_mem_toDigits {number : Nat} :
    ∀ c ∈ Nat.toDigits 10 number, isDecimalDigit c = true :=
  forall_mem_toDigits (by decide) (by decide) number

theorem isHexDigit_of_mem_toDigits {number : Nat} :
    ∀ c ∈ Nat.toDigits 16 number, isHexDigit c = true :=
  forall_mem_toDigits (by decide) (by decide) number

end Text
end Concatenative
