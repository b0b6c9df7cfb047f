/-!
# Stack effects

An effect says how many words a piece of code takes from the data stack and how many it leaves in
their place. An inexact effect promises only the number of words taken as far as it is known. The
numbers are integers, so that differences of them can be taken; those of code are never negative.
-/

namespace Concatenative

/-- How a piece of code changes the depth of the data stack. -/
structure Effect where
  /-- The number of words taken. -/
  input : Int
  /-- The number of words left. -/
  output : Int
  /-- Both numbers are known. -/
  exact : Bool := true
  deriving DecidableEq

namespace Effect

/-- The effect of doing nothing. -/
def neutral : Effect := ⟨0, 0, true⟩

/-- The effect of a word that stands for itself. -/
def literal : Effect := ⟨0, 1, true⟩

/-- The effect of code that takes a number of words and leaves an unknown number. -/
def inexact (input : Int) : Effect := ⟨input, 0, false⟩

/-- The effect of running one piece of code and then another. What the second needs beyond the
words that the first leaves is taken from below. -/
def andThen (first second : Effect) : Effect :=
  if first.output < second.input then
    { input := first.input + (second.input - first.output)
      output := second.output
      exact := first.exact && second.exact }
  else
    { input := first.input
      output := first.output - second.input + second.output
      exact := first.exact && second.exact }

/-- The written form of an effect. -/
def describe (effect : Effect) : String :=
  "( " ++ effect.input.repr ++ " -- " ++ effect.output.repr ++
    (if effect.exact then "" else "?") ++ " )"

theorem andThen_neutral
    {effect : Effect}
    (nonneg : 0 ≤ effect.output) :
    effect.andThen neutral = effect := by
  obtain ⟨input, output, exact⟩ := effect
  have enough : ¬output < 0 := Int.not_lt.mpr nonneg
  simp [andThen, neutral, enough]

theorem neutral_andThen
    {effect : Effect}
    (nonneg : 0 ≤ effect.input) :
    neutral.andThen effect = effect := by
  obtain ⟨input, output, exact⟩ := effect
  by_cases needed : 0 < input
  · simp [andThen, neutral, needed]
  · have none : input = 0 := Int.le_antisymm (Int.not_lt.mp needed) nonneg
    simp [andThen, neutral, none]

end Effect
end Concatenative
