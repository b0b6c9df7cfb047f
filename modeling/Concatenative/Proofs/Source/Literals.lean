import Concatenative.Proofs.Source.RoundTrip
import Concatenative.Proofs.Text.Expansion

/-!
# String literals

What stands between two quotes becomes a string as it is, tabs apart. A tab becomes as many spaces
as there are columns to the next tab stop from where the tab stands in the text, so that a string
without tabs, and no other, is read as it was written.
-/

namespace Concatenative
namespace Source

/-- A string between quotes. -/
def quote (content : String) : String :=
  "\"" ++ content ++ "\""

/-- Strings between quotes, with spaces between them. -/
def literals (contents : List String) : String :=
  " ".intercalate (contents.map quote)

/-- What is read from the literals of strings, given the column at which the first of them begins:
each string with its tabs expanded where it stands. -/
def contentsAt (column : Nat) : List String → List String
  | [] => []
  | content :: later =>
    String.ofList (Text.expandTabsFrom (column + 1) content.toList) ::
      contentsAt (content.toList.foldl Text.columnBehind (column + 1) + 2) later

theorem literals_eq (contents : List String) :
    literals contents = Word.displayAll (contents.map .str) := by
  rw [literals, Word.displayAll, Word.join, List.map_map]
  rfl

/-- A literal is expanded as its content is, one column further on. -/
theorem expandTabsFrom_quoted (column : Nat) (content rest : List Char) :
    Text.expandTabsFrom column ('"' :: (content ++ '"' :: rest)) =
      '"' :: (Text.expandTabsFrom (column + 1) content ++
        '"' :: Text.expandTabsFrom (content.foldl Text.columnBehind (column + 1) + 1) rest) := by
  rw [Text.expandTabsFrom_cons, Text.expandTabsFrom_append, Text.expandTabsFrom_cons]
  rfl

theorem toList_literals_singleton (content : String) :
    (literals [content]).toList = '"' :: (content.toList ++ ['"']) := by
  simp [literals, quote]

theorem toList_literals_cons_cons (first second : String) (later : List String) :
    (literals (first :: second :: later)).toList =
      '"' :: (first.toList ++ '"' :: ' ' :: (literals (second :: later)).toList) := by
  simp [literals, quote]

/-- The expansion of literals are the literals of what is read from them. -/
theorem expandTabsFrom_literals (column : Nat) (contents : List String) :
    Text.expandTabsFrom column (literals contents).toList =
      (literals (contentsAt column contents)).toList := by
  induction contents generalizing column with
  | nil => rfl
  | cons first later inductionHypothesis =>
      -- No space follows the last literal.
      cases later with
      | nil =>
          rw [contentsAt, contentsAt, toList_literals_singleton, toList_literals_singleton,
            expandTabsFrom_quoted, String.toList_ofList]
          rfl
      | cons second later =>
          have rest := inductionHypothesis (first.toList.foldl Text.columnBehind (column + 1) + 2)
          rw [contentsAt] at rest
          rw [contentsAt, contentsAt, toList_literals_cons_cons, toList_literals_cons_cons,
            expandTabsFrom_quoted, String.toList_ofList, ← rest]
          rfl

/-- Texts with the same expansion are the same program. -/
theorem parse_of_expandTabs
    {first second : String}
    {words : List Word}
    (same : Text.expandTabs first.toList = Text.expandTabs second.toList)
    (parsed : parse second = .ok words) :
    parse first = .ok words := by
  obtain ⟨tree, derives⟩ := exists_derives_of_parseChars parsed
  have meaning := BlockTree.parseChars_eq second.toList derives
  have tokens_eq : tokens first.toList = tokens second.toList := by rw [tokens, same, tokens]
  rw [← tokens_eq] at derives
  cases meaning.symm.trans parsed
  exact BlockTree.parseChars_eq first.toList derives

/-- Strings without quotes and tabs are read as they are. -/
theorem parse_literals
    {contents : List String}
    (quoteless : ∀ content ∈ contents, '"' ∉ content.toList)
    (tabless : ∀ content ∈ contents, '\t' ∉ content.toList) :
    parse (literals contents) = .ok (contents.map .str) := by
  rw [literals_eq]
  apply parse_displayAll
  rw [List.forall_mem_map]
  exact fun content present => .str (quoteless content present) (tabless content present)

/-- What is read from literals are expansions of their contents. -/
theorem forall_mem_contentsAt
    {property : String → Prop}
    {contents : List String}
    (expanded : ∀ content ∈ contents, ∀ column,
      property (String.ofList (Text.expandTabsFrom column content.toList)))
    (column : Nat) :
    ∀ content ∈ contentsAt column contents, property content := by
  induction contents generalizing column with
  | nil => exact fun _ present => absurd present List.not_mem_nil
  | cons first later inductionHypothesis =>
      rw [List.forall_mem_cons] at expanded
      rw [contentsAt, List.forall_mem_cons]
      exact ⟨expanded.1 _, inductionHypothesis expanded.2 _⟩

/-- Strings without quotes are read with their tabs expanded. -/
theorem parse_literals_expanded
    {contents : List String}
    (quoteless : ∀ content ∈ contents, '"' ∉ content.toList) :
    parse (literals contents) = .ok ((contentsAt 0 contents).map .str) := by
  have stillQuoteless : ∀ content ∈ contentsAt 0 contents, '"' ∉ content.toList := by
    refine forall_mem_contentsAt (fun content present column => ?_) 0
    rw [String.toList_ofList]
    exact Text.notMem_expandTabsFrom column (quoteless content present) (by decide)
  have tabless : ∀ content ∈ contentsAt 0 contents, '\t' ∉ content.toList := by
    refine forall_mem_contentsAt (fun content _ column => ?_) 0
    rw [String.toList_ofList]
    exact tab_notMem_expandTabsFrom column content.toList
  refine parse_of_expandTabs ?_ (parse_literals stillQuoteless tabless)
  rw [Text.expandTabs, Text.expandTabs, ← expandTabsFrom_literals]
  exact (Text.expandTabsFrom_eq_self 0 (tab_notMem_expandTabsFrom 0 _)).symm

/-- Strings without quotes that are written as literals are read with their tabs expanded, and they
are read as they are if and only if they have no tabs. -/
theorem literals_verbatim_iff_tabless
    {contents : List String}
    (quoteless : ∀ content ∈ contents, '"' ∉ content.toList) :
    parse (literals contents) = .ok ((contentsAt 0 contents).map .str) ∧
      (parse (literals contents) = .ok (contents.map .str) ↔
        ∀ content ∈ contents, '\t' ∉ content.toList) := by
  refine ⟨parse_literals_expanded quoteless, ?_, parse_literals quoteless⟩
  intro parsed content present
  have wellFormed := wellFormed_of_parse parsed (.str content) (List.mem_map_of_mem present)
  cases wellFormed with
  | str quoteless tabless => exact tabless

/-- The second string is on the second line, so that its tab ends at the eighth column there. -/
theorem literals_verbatim_iff_tabless_lines :
    (∀ content ∈ ["\\ \x7b;\n#", "é\t=", ""], '"' ∉ content.toList) ∧
      parse (literals ["\\ \x7b;\n#", "é\t=", ""]) =
        .ok (["\\ \x7b;\n#", "é   =", ""].map .str) ∧
      (parse (literals ["\\ \x7b;\n#", "é\t=", ""]) =
          .ok (["\\ \x7b;\n#", "é\t=", ""].map .str) ↔
        ∀ content ∈ ["\\ \x7b;\n#", "é\t=", ""], '\t' ∉ content.toList) := by
  have quoteless : ∀ content ∈ ["\\ \x7b;\n#", "é\t=", ""], '"' ∉ content.toList := by
    decide
  have contents : contentsAt 0 ["\\ \x7b;\n#", "é\t=", ""] = ["\\ \x7b;\n#", "é   =", ""] := by
    decide
  have read := literals_verbatim_iff_tabless quoteless
  rw [contents] at read
  exact ⟨quoteless, read⟩

/-- A tab between quotes is read as spaces. -/
theorem tab_literal_not_verbatim :
    (∀ content ∈ ["\t"], '"' ∉ content.toList) ∧
      parse (literals ["\t"]) = .ok [.str "       "] ∧
      parse (literals ["\t"]) ≠ .ok (["\t"].map .str) := by
  have spaces : parse (literals ["\t"]) = .ok [.str "       "] := parse_of_readTokens rfl
  refine ⟨by decide, spaces, ?_⟩
  rw [spaces]
  intro same
  exact absurd (Except.ok.inj same) (by decide)

end Source
end Concatenative
