import Concatenative.Proofs.Source.FirstFault
import Concatenative.Proofs.Source.Location
import Concatenative.Proofs.Source.Tiling
import Concatenative.Proofs.Text.Expansion

/-!
# The culprit of a flaw

A text is refused for one of its characters: a brace without a counterpart, the quote of a string
that nothing closes, or a number sign. The offset of the flaw counts the characters before it after
their tabs have been expanded, and its position is the one that this offset has in the text as it
was before. The two agree if the tabs before the flaw are one column wide.
-/

namespace Concatenative
namespace Source

/-- The character that a flaw is about. -/
inductive Culprit : Flaw → Char → Prop where
  | missingOpenBrace : Culprit .missingOpenBrace '\x7d'
  | missingCloseBrace : Culprit .missingCloseBrace '\x7b'
  | missingEndQuote : Culprit .missingEndQuote '"'
  | badHexLiteral : Culprit .badHexLiteral '#'

theorem Culprit.ne_of_isBlank
    {flaw : Flaw}
    {c blank : Char}
    (culprit : Culprit flaw c)
    (isBlank : Text.isBlank blank = true) :
    c ≠ blank := by
  rintro rfl
  cases culprit <;> exact absurd isBlank (by decide)

/-- The token begins with the character wherever it stands. -/
def Token.BeginsWith (token : Token) (c : Char) : Prop :=
  ∀ before after, token.lexeme.Fits before after → ∃ more, token.lexeme.spelling = c :: more

/-- The token that a text is refused for begins with the culprit, and the flaw is reported at its
offset. -/
theorem Blames.exists_token
    {text : List Char}
    {tokens : List Token}
    {error : SyntaxError}
    (blames : Blames text tokens (.flawed error)) :
    ∃ token ∈ tokens, ∃ c, Culprit error.flaw c ∧ token.BeginsWith c ∧
      error.position = Position.ofOffset text token.offset := by
  cases blames with
  | @unclosed before after brace faultless split opens balanced =>
      refine ⟨brace, by simp [split], _, .missingCloseBrace, fun _ _ _ => ⟨[], ?_⟩, rfl⟩
      rw [opens]
      rfl
  | @fault before after token error split faultless fault =>
      refine ⟨token, by simp [split], ?_⟩
      cases fault with
      | closing lexeme outermost =>
          refine ⟨_, .missingOpenBrace, fun _ _ _ => ⟨[], ?_⟩, rfl⟩
          rw [lexeme]
          rfl
      | unclosed lexeme =>
          refine ⟨_, .missingEndQuote, fun _ _ fits => ?_, rfl⟩
          rw [lexeme] at fits ⊢
          obtain ⟨⟨content, spelled, _⟩, _⟩ := fits
          exact ⟨content, spelled⟩
      | @hex content digits lexeme sharp bad =>
          refine ⟨_, .badHexLiteral, fun _ _ _ => ⟨digits, ?_⟩, rfl⟩
          rw [lexeme]
          exact sharp

/-- What a token begins with stands in the text as it was before the expansion of tabs. -/
theorem exists_front_of_token
    {text : List Char}
    {token : Token}
    {c : Char}
    (present : token ∈ tokens text)
    (begins : token.BeginsWith c)
    (noSpace : c ≠ ' ') :
    ∃ front rest, text = front ++ c :: rest ∧ (Text.expandTabs front).length = token.offset := by
  have tiles : Tiles [] (Text.expandTabs text) (tokens text) := tiles_tokensFrom [] _ (parted_nil _)
  obtain ⟨before, after, expanded, offset, fits⟩ := tiles.standsIn token present
  obtain ⟨more, spelled⟩ := begins before after fits
  rw [spelled, List.cons_append] at expanded
  obtain ⟨front, rest, split, same⟩ := Text.exists_source 0 expanded noSpace
  exact ⟨front, rest, split, by rw [Text.expandTabs, same, offset]⟩

/-- A text with a flaw has the flaw's culprit among its characters, and the flaw is reported at the
offset that the culprit has after the expansion of tabs. This is the position at which the culprit
stands if and only if there are then as many characters before the culprit as in the text. -/
theorem error_points_at_culprit
    {text : String}
    {error : SyntaxError}
    (refused : parse text = .error (.flawed error)) :
    ∃ front c rest, text.toList = front ++ c :: rest ∧ Culprit error.flaw c ∧
      (Position.ofOffset text.toList front.length).Denotes text.toList c ∧
      error.position = Position.ofOffset text.toList (Text.expandTabs front).length ∧
      (error.position = Position.ofOffset text.toList front.length ↔
        (Text.expandTabs front).length = front.length) := by
  have blames : Blames text.toList (tokens text.toList) (.flawed error) :=
    blames_of_parseChars refused
  obtain ⟨token, present, c, culprit, begins, position⟩ := blames.exists_token
  have noSpace : c ≠ ' ' := culprit.ne_of_isBlank (by decide)
  have inLine : c ≠ '\n' := culprit.ne_of_isBlank (by decide)
  obtain ⟨front, rest, split, offset⟩ := exists_front_of_token present begins noSpace
  rw [← offset] at position
  refine ⟨front, c, rest, split, culprit, ?_, position, ?_⟩
  · rw [split]
    exact Position.denotes_ofOffset front rest inLine
  · rw [position]
    exact Position.ofOffset_inj

/-- A string over two lines, a comment and a tab of one column stand before the culprit. -/
theorem error_points_at_culprit_behind_narrow_tab :
    parse "\"a\nb\" # \x7d\n1234567\t#xyz" =
        .error (.flawed (.locate .badHexLiteral "\"a\nb\" # \x7d\n1234567\t#xyz".toList 18)) ∧
      ∃ front c rest, "\"a\nb\" # \x7d\n1234567\t#xyz".toList = front ++ c :: rest ∧
        Culprit .badHexLiteral c ∧
        (Position.ofOffset "\"a\nb\" # \x7d\n1234567\t#xyz".toList front.length).Denotes
          "\"a\nb\" # \x7d\n1234567\t#xyz".toList c ∧
        (⟨3, 9⟩ : Position) =
          Position.ofOffset "\"a\nb\" # \x7d\n1234567\t#xyz".toList
            (Text.expandTabs front).length ∧
        ((⟨3, 9⟩ : Position) =
            Position.ofOffset "\"a\nb\" # \x7d\n1234567\t#xyz".toList front.length ↔
          (Text.expandTabs front).length = front.length) := by
  have refused :
      parse "\"a\nb\" # \x7d\n1234567\t#xyz" =
        .error (.flawed (.locate .badHexLiteral "\"a\nb\" # \x7d\n1234567\t#xyz".toList 18)) :=
    parse_of_readTokens rfl
  exact ⟨refused, error_points_at_culprit refused⟩

/-- Behind a tab that is wider the reported position is one that the text does not have. -/
theorem error_behind_wide_tab_points_nowhere :
    ∃ error, parse "\t\x7d" = .error (.flawed error) ∧ Culprit error.flaw '\x7d' ∧
      error.position = ⟨1, 9⟩ ∧ ∀ c, ¬ error.position.Denotes "\t\x7d".toList c := by
  refine ⟨_, parse_of_readTokens rfl, .missingOpenBrace, rfl, ?_⟩
  rintro c ⟨row, column, chars, position, atRow, atColumn⟩
  obtain ⟨firstRow, ninthColumn⟩ : (1 : Int) = (row + 1 : Nat) ∧ (9 : Int) = (column + 1 : Nat) :=
    Position.mk.inj position
  obtain rfl : row = 0 := by omega
  obtain rfl : column = 8 := by omega
  obtain rfl : ['\t', '\x7d'] = chars := Option.some.inj atRow
  cases atColumn

end Source
end Concatenative
