import Concatenative.Text.TabStop
import Mathlib.Tactic.SplitIfs

/-!
# The expansion of tabs

Characters are expanded one by one, each at the column behind those before it. Only tabs are
replaced, and only by spaces, so that every other character of an expanded text is one of the text.
-/

namespace Concatenative
namespace Text

/-- What a character is replaced by at a column. -/
def expandChar (column : Nat) (c : Char) : List Char :=
  if c = '\t' then List.replicate (toTabStop column) ' ' else [c]

/-- The column behind a character that stands at a column. -/
def columnBehind (column : Nat) (c : Char) : Nat :=
  if c = '\t' then column + toTabStop column
  else if c = '\n' ∨ c = '\r' then 0
  else column + 1

theorem expandTabsFrom_cons (column : Nat) (c : Char) (rest : List Char) :
    expandTabsFrom column (c :: rest) =
      expandChar column c ++ expandTabsFrom (columnBehind column c) rest := by
  simp only [expandTabsFrom, expandChar, columnBehind]
  split_ifs <;> rfl

/-- A part of a text is expanded at the column behind the part before it. -/
theorem expandTabsFrom_append (column : Nat) (first second : List Char) :
    expandTabsFrom column (first ++ second) =
      expandTabsFrom column first ++ expandTabsFrom (first.foldl columnBehind column) second := by
  induction first generalizing column with
  | nil => rfl
  | cons c first inductionHypothesis =>
      rw [List.cons_append, expandTabsFrom_cons, expandTabsFrom_cons, inductionHypothesis,
        List.append_assoc, List.foldl_cons]

theorem expandChar_of_ne_tab
    (column : Nat)
    {c : Char}
    (noTab : c ≠ '\t') :
    expandChar column c = [c] :=
  if_neg noTab

/-- A character that is not in the first part of a text is found behind that part. -/
theorem exists_behind
    {first second before after : List Char}
    {c : Char}
    (absent : c ∉ first)
    (same : first ++ second = before ++ c :: after) :
    ∃ more, before = first ++ more ∧ second = more ++ c :: after := by
  induction first generalizing before with
  | nil => exact ⟨before, rfl, same⟩
  | cons d first inductionHypothesis =>
      rw [List.mem_cons, not_or] at absent
      cases before with
      | nil => exact absurd (List.cons.inj same).1.symm absent.1
      | cons e before =>
          obtain ⟨rfl, later⟩ := List.cons.inj same
          obtain ⟨more, rfl, found⟩ := inductionHypothesis absent.2 later
          exact ⟨more, rfl, found⟩

/-- A character of an expanded text other than a space is one of the text, and the characters
before it are the expansion of those before it there. -/
theorem exists_source
    (column : Nat)
    {text before after : List Char}
    {c : Char}
    (expanded : expandTabsFrom column text = before ++ c :: after)
    (noSpace : c ≠ ' ') :
    ∃ front rest, text = front ++ c :: rest ∧ expandTabsFrom column front = before := by
  induction text generalizing column before with
  | nil => simp [expandTabsFrom] at expanded
  | cons first text inductionHypothesis =>
      rw [expandTabsFrom_cons] at expanded
      by_cases tab : first = '\t'
      · have absent : c ∉ expandChar column first := by
          rw [expandChar, if_pos tab]
          exact fun present => noSpace (List.eq_of_mem_replicate present)
        obtain ⟨more, rfl, later⟩ := exists_behind absent expanded
        obtain ⟨front, rest, rfl, rfl⟩ := inductionHypothesis _ later
        exact ⟨first :: front, rest, rfl, expandTabsFrom_cons column first front⟩
      · rw [expandChar_of_ne_tab column tab, List.singleton_append] at expanded
        cases before with
        | nil =>
            obtain ⟨rfl, _⟩ := List.cons.inj expanded
            exact ⟨[], text, rfl, rfl⟩
        | cons d before =>
            obtain ⟨rfl, later⟩ := List.cons.inj expanded
            obtain ⟨front, rest, rfl, rfl⟩ := inductionHypothesis _ later
            refine ⟨first :: front, rest, rfl, ?_⟩
            rw [expandTabsFrom_cons, expandChar_of_ne_tab column tab, List.singleton_append]

/-- Nothing but spaces comes in with the expansion of tabs. -/
theorem notMem_expandTabsFrom
    (column : Nat)
    {text : List Char}
    {c : Char}
    (absent : c ∉ text)
    (noSpace : c ≠ ' ') :
    c ∉ expandTabsFrom column text := by
  intro present
  obtain ⟨before, after, expanded⟩ := List.append_of_mem present
  obtain ⟨front, rest, rfl, _⟩ := exists_source column expanded noSpace
  exact absent (List.mem_append_right front List.mem_cons_self)

end Text
end Concatenative
