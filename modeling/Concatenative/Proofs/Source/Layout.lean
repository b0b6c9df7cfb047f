import Concatenative.Proofs.Source.RoundTrip

/-!
# Layout

The layout of a word breaks its written form into lines and indents them. It breaks between two
items of a list only, so that it is scanned into the lexemes of the written form, with line ends
between some of them.
-/

namespace Concatenative
namespace Source

/-- The lexeme separates two lines of a block. -/
def Lexeme.separates : Lexeme → Bool
  | .newline => true
  | .semicolon => true
  | _ => false

/-- The lexemes that do not separate lines. -/
def unseparated (lexemes : List Lexeme) : List Lexeme :=
  lexemes.filter fun lexeme => !lexeme.separates

theorem unseparated_append (first second : List Lexeme) :
    unseparated (first ++ second) = unseparated first ++ unseparated second :=
  List.filter_append ..

/-! ## Lexemes of a word -/

theorem lexemesOfEach_append (first second : List Word) :
    lexemesOfEach (first ++ second) = lexemesOfEach first ++ lexemesOfEach second := by
  simp only [lexemesOfEach_eq_flatten, List.map_append, List.flatten_append]

/-- A word is written on one line. -/
theorem unseparated_lexemesOf (word : Word) : unseparated (lexemesOf word) = lexemesOf word := by
  induction word with
  | atom | int | hex | str | dict => rfl
  | list items inductionHypothesis =>
      have inside : unseparated (lexemesOfEach items) = lexemesOfEach items := by
        induction items with
        | nil => rfl
        | cons item rest restHypothesis =>
            rw [List.forall_mem_cons] at inductionHypothesis
            rw [lexemesOfEach, unseparated_append, inductionHypothesis.1,
              restHypothesis inductionHypothesis.2]
      change .opening :: unseparated (lexemesOfEach items ++ [.closing]) = _
      rw [unseparated_append, inside]
      rfl

/-! ## Lines -/

/-- Spaces in front of a line are not scanned into anything. -/
theorem Spells.padded
    {chars : List Char}
    {lexemes : List Lexeme}
    (spells : Spells chars lexemes)
    (count : Nat) :
    Spells (List.replicate count ' ' ++ chars) lexemes := by
  induction count with
  | zero => exact spells
  | succ count inductionHypothesis => exact spells_nil.spaced inductionHypothesis

/-- Each of the lines is scanned into a part of the lexemes, and all parts together are the
lexemes. -/
def Lays (lines : List String) (lexemes : List Lexeme) : Prop :=
  ∃ parts, List.Forall₂ Spells (lines.map String.toList) parts ∧ parts.flatten = lexemes

theorem lays_nil : Lays [] [] :=
  ⟨[], .nil, rfl⟩

theorem Lays.append
    {first second : List String}
    {before behind : List Lexeme}
    (front : Lays first before)
    (back : Lays second behind) :
    Lays (first ++ second) (before ++ behind) := by
  obtain ⟨early, earlySpelled, rfl⟩ := front
  obtain ⟨late, lateSpelled, rfl⟩ := back
  refine ⟨early ++ late, ?_, List.flatten_append⟩
  rw [List.map_append]
  exact List.rel_append earlySpelled lateSpelled

theorem lays_padded
    {line : String}
    {lexemes : List Lexeme}
    (spells : Spells line.toList lexemes)
    (depth : Int) :
    Lays [Word.padding depth ++ line] lexemes := by
  refine ⟨[lexemes], .cons ?_ .nil, List.flatten_singleton⟩
  rw [String.toList_append, Word.padding, String.toList_ofList]
  exact spells.padded _

/-- The line ends between parts do not count. -/
theorem unseparated_intercalate (parts : List (List Lexeme)) :
    unseparated ([.newline].intercalate parts) = unseparated parts.flatten := by
  induction parts with
  | nil => rfl
  | cons first rest inductionHypothesis =>
      cases rest with
      | nil => rw [List.intercalate_singleton, List.flatten_singleton]
      | cons second others =>
          have uncounted : unseparated [.newline] = [] := rfl
          rw [List.intercalate_cons_cons, unseparated_append, unseparated_append,
            inductionHypothesis, uncounted, List.append_nil, ← unseparated_append]
          rfl

/-- Lines are scanned one after the other, with a line end between two of them. -/
theorem Lays.exists_spells
    {lines : List String}
    {lexemes : List Lexeme}
    (lays : Lays lines lexemes)
    (onLines : unseparated lexemes = lexemes) :
    ∃ spelled, Spells ("\n".intercalate lines).toList spelled ∧ unseparated spelled = lexemes := by
  obtain ⟨parts, spells, rfl⟩ := lays
  refine ⟨[.newline].intercalate parts, ?_, ?_⟩
  · rw [String.toList_intercalate]
    exact joins_newline.intercalate spells
  · rw [unseparated_intercalate, onLines]

/-! ## Words -/

variable {word : Word} {items : List Word} {depth : Int}

theorem lays_collectedLine
    {waiting : List Word}
    (wellFormed : ∀ word ∈ waiting, word.WellFormed)
    (depth : Int) :
    Lays (Word.collectedLine depth (waiting.map Word.display).reverse) (lexemesOfEach waiting) := by
  cases waiting with
  | nil => exact lays_nil
  | cons first others =>
      have present : ((first :: others).map Word.display).reverse.isEmpty = false := by simp
      rw [Word.collectedLine, present, List.reverse_reverse]
      have spells := spells_displayAll fun word present => spells_display (wellFormed word present)
      have indented : Spells ("  " ++ Word.displayAll (first :: others)).toList
          (lexemesOfEach (first :: others)) := by
        rw [String.toList_append]
        exact spells.padded 2
      rw [String.append_assoc]
      exact lays_padded indented depth

/-- The items of a list are laid out in their order. The words that wait for a line of their own
come first. -/
theorem lays_prettyItems
    {waiting : List Word}
    (waitingWellFormed : ∀ word ∈ waiting, word.WellFormed)
    (wellFormed : ∀ item ∈ items, item.WellFormed)
    (nested : ∀ item ∈ items, Lays (Word.prettyLines (depth + 1) item) (lexemesOf item)) :
    Lays (Word.prettyItems depth (waiting.map Word.display).reverse items)
      (lexemesOfEach (waiting ++ items)) := by
  induction items generalizing waiting with
  | nil =>
      rw [Word.prettyItems, List.append_nil]
      exact lays_collectedLine waitingWellFormed depth
  | cons item rest inductionHypothesis =>
      rw [List.forall_mem_cons] at wellFormed nested
      rw [Word.prettyItems]
      split
      · have later := inductionHypothesis (List.forall_mem_nil _) wellFormed.2 nested.2
        rw [lexemesOfEach_append, lexemesOfEach, ← List.append_assoc]
        exact ((lays_collectedLine waitingWellFormed depth).append nested.1).append later
      · have allWellFormed : ∀ word ∈ waiting ++ [item], word.WellFormed :=
          List.forall_mem_append.mpr ⟨waitingWellFormed, List.forall_mem_singleton.mpr wellFormed.1⟩
        have later := inductionHypothesis allWellFormed wellFormed.2 nested.2
        rw [List.map_append, List.reverse_append, List.append_assoc] at later
        exact later

/-- At every depth of nesting, a well-formed word is laid out over lines that are scanned into its
lexemes. -/
theorem lays_prettyLines
    (wellFormed : word.WellFormed)
    (depth : Int) :
    Lays (word.prettyLines depth) (lexemesOf word) := by
  induction wellFormed generalizing depth with
  | atom spelled noInteger =>
      exact lays_padded (spells_display (.atom spelled noInteger)) depth
  | int inRange => exact lays_padded (spells_display (.int inRange)) depth
  | hex inRange => exact lays_padded (spells_display (.hex inRange)) depth
  | str quoteless tabless => exact lays_padded (spells_display (.str quoteless tabless)) depth
  | @list items each inductionHypothesis =>
      rw [Word.prettyLines]
      split
      · have opening : Spells "\x7b".toList [.opening] := spells_opening
        have closing : Spells "\x7d".toList [.closing] := spells_closing
        have inner := lays_prettyItems (List.forall_mem_nil _) each
          fun item present => inductionHypothesis item present (depth + 1)
        exact (lays_padded opening depth).append (inner.append (lays_padded closing depth))
      · exact lays_padded (spells_display (.list each)) depth

/-- The layout of a word changes neither its words and braces nor its strings. At every depth of
nesting it has, line ends left out, the tokens of the written form. -/
theorem layout_keeps_tokens
    (denoted : Denoted word)
    (depth : Int) :
    unseparated ((tokens (word.pretty depth).toList).map Token.lexeme) =
      (tokens (Word.displayAll [word]).toList).map Token.lexeme := by
  have wellFormed := denoted.wellFormed
  obtain ⟨spelled, spells, same⟩ :=
    (lays_prettyLines wellFormed depth).exists_spells (unseparated_lexemesOf word)
  have laid : (tokens (word.pretty depth).toList).map Token.lexeme = spelled := spells.tokens_eq
  have written := spells_displayAll (List.forall_mem_singleton.mpr (spells_display wellFormed))
  rw [laid, written.tokens_eq, same, lexemesOfEach, lexemesOfEach, List.append_nil]

/-- A string that spans two lines, in a list of a list, keeps its second line unindented. -/
theorem layout_keeps_tokens_of_lines :
    Word.pretty 1 (.list [.atom "a", .list [.str "x\ny"], .int 5]) =
        "  \x7b\n    a\n    \x7b \"x\ny\" \x7d\n    5\n  \x7d" ∧
      unseparated ((tokens (Word.pretty 1
          (.list [.atom "a", .list [.str "x\ny"], .int 5])).toList).map Token.lexeme) =
        [.opening, .bare "a", .opening, .quoted "x\ny", .closing, .bare "5", .closing] := by
  have denoted : Denoted (.list [.atom "a", .list [.str "x\ny"], .int 5]) :=
    ⟨"\x7b a \x7b \"x\ny\" \x7d 5 \x7d", _, parse_of_readTokens rfl,
      List.mem_singleton_self _⟩
  exact ⟨rfl, layout_keeps_tokens denoted 1⟩

end Source
end Concatenative
