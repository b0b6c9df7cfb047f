/-!
# Tab stops

A tab reaches to the next multiple of eight columns. Columns are counted in characters from the
start of the line, and a carriage return starts a line as a newline does.
-/

namespace Concatenative
namespace Text

/-- The distance between two tab stops. -/
def tabWidth : Nat := 8

/-- The number of columns from the given one to the next tab stop. -/
def toTabStop (column : Nat) : Nat :=
  tabWidth - column % tabWidth

/-- The text with each tab replaced by spaces, given the column at which the text begins. -/
def expandTabsFrom : Nat → List Char → List Char
  | _, [] => []
  | column, c :: rest =>
    if c = '\t' then
      List.replicate (toTabStop column) ' ' ++ expandTabsFrom (column + toTabStop column) rest
    else if c = '\n' ∨ c = '\r' then
      c :: expandTabsFrom 0 rest
    else
      c :: expandTabsFrom (column + 1) rest

/-- The text with each tab replaced by the spaces up to its stop. -/
def expandTabs (text : List Char) : List Char :=
  expandTabsFrom 0 text

@[simp] theorem expandTabs_nil : expandTabs [] = [] := rfl

/-- A text without tabs is its own expansion, whatever the column. -/
theorem expandTabsFrom_eq_self
    (column : Nat)
    {text : List Char}
    (tabless : '\t' ∉ text) :
    expandTabsFrom column text = text := by
  induction text generalizing column with
  | nil => rfl
  | cons c rest inductionHypothesis =>
      simp only [List.mem_cons, not_or] at tabless
      have notTab : c ≠ '\t' := fun equal => tabless.1 equal.symm
      simp [expandTabsFrom, notTab, inductionHypothesis _ tabless.2]

end Text
end Concatenative
