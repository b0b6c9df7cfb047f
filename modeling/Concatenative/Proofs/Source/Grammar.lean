import Concatenative.Proofs.Source.Scanning
import Concatenative.Source.Program
import Mathlib.Data.List.TakeWhile

/-!
# The scanner follows the grammar

`Front` tells what the alternatives of the grammar take from the front of a text. The first
alternative that matches takes such a front, the scanner makes one token of it or skips it, and some
alternative matches unless the text is at its end. So the grammar accepts every text, and its tokens
are those of the scanner.
-/

namespace Concatenative
namespace Source

/-- The character is a token by itself. -/
inductive Mark : Char → Lexeme → Prop where
  | newline : Mark '\n' .newline
  | semicolon : Mark ';' .semicolon
  | opening : Mark '\x7b' .opening
  | closing : Mark '\x7d' .closing

/-- What the grammar takes from the front of a text, and the lexeme that it finds there, given the
characters that remain. Nothing of what is taken could go on in them. -/
inductive Front : Option Lexeme → List Char → List Char → Prop where
  /-- Blanks within a line. -/
  | blanks {taken rest : List Char}
      (blanks : ∀ c ∈ taken, Text.isBlank c = true ∧ c ≠ '\n') :
      Front none taken rest
  /-- A character that is a token by itself. -/
  | mark {c : Char} {lexeme : Lexeme} {rest : List Char}
      (mark : Mark c lexeme) :
      Front (some lexeme) [c] rest
  /-- A string. -/
  | quoted {content rest : List Char}
      (quoteless : '"' ∉ content) :
      Front (some (.quoted (String.ofList content))) ('"' :: (content ++ ['"'])) rest
  /-- A quote that nothing closes, and everything behind it. -/
  | unclosed {content : List Char}
      (quoteless : '"' ∉ content) :
      Front (some (.unclosed (String.ofList ('"' :: content)))) ('"' :: content) []
  /-- A comment up to the end of its line. -/
  | comment {body rest : List Char}
      (opened : ∀ c ∈ (body ++ rest).head?, opensComment c = true)
      (inLine : '\n' ∉ body)
      (lineEnds : ∀ c ∈ rest.head?, c = '\n') :
      Front none ('#' :: body) rest
  /-- A run of equality signs. -/
  | equality {others rest : List Char}
      (same : ∀ c ∈ others, c = '=')
      (ends : '=' ∉ rest.head?) :
      Front (some (.bare (String.ofList ('=' :: others)))) ('=' :: others) rest
  /-- A bare word that begins with a number sign. -/
  | sharp {first : Char} {others rest : List Char}
      (noComment : opensComment first = false)
      (goesOn : ∀ c ∈ others, endsWord c = false)
      (ends : ∀ c ∈ rest.head?, endsWord c = true) :
      Front (some (.bare (String.ofList ('#' :: first :: others)))) ('#' :: first :: others) rest
  /-- Any other bare word. -/
  | word {first : Char} {others rest : List Char}
      (begins : StartsWord first)
      (goesOn : ∀ c ∈ others, endsWord c = false)
      (ends : ∀ c ∈ rest.head?, endsWord c = true) :
      Front (some (.bare (String.ofList (first :: others)))) (first :: others) rest

/-- The scanner finds the lexeme of what is taken, if there is one, and goes on behind it. -/
theorem Front.scanned
    {lexeme? : Option Lexeme}
    {taken rest : List Char}
    (front : Front lexeme? taken rest)
    (offset : Nat) :
    Scan.tokensFrom offset .between (taken ++ rest) =
      (lexeme?.toList.map fun lexeme => ⟨lexeme, offset⟩) ++
        Scan.tokensFrom (offset + taken.length) .between rest := by
  cases front with
  | blanks blanks => exact Scan.tokensFrom_blanks offset blanks rest
  | mark mark => cases mark <;> rfl
  | quoted quoteless => simpa using Scan.tokensFrom_quoted offset quoteless rest
  | unclosed quoteless => simpa [Scan.finish] using Scan.tokensFrom_unclosed offset quoteless
  | comment opened inLine lineEnds => exact Scan.tokensFrom_comment offset opened inLine lineEnds
  | equality same ends => exact Scan.tokensFrom_equality offset same ends
  | sharp noComment goesOn ends => exact Scan.tokensFrom_sharp offset noComment goesOn ends
  | word begins goesOn ends => exact Scan.tokensFrom_startsWord offset begins goesOn ends

/-! ## What the alternatives take -/

/-- The match takes the front of the text in one of the ways of the grammar. -/
def Match.IsFront {chars : List Char} (found : Match chars) : Prop :=
  Front found.lexeme? found.taken found.rest

/-- The first character behind all characters of a class is not in the class. -/
theorem stops_of_head?_dropWhile
    (goesOn : Char → Bool)
    (chars : List Char) :
    ∀ c ∈ (chars.dropWhile goesOn).head?, goesOn c = false := by
  intro c next
  have stops := List.head?_dropWhile_not goesOn chars
  rwa [Option.mem_def.mp next] at stops

namespace Grammar

theorem isFront_of_blank (chars : List Char) : ∀ found ∈ blank chars, found.IsFront := by
  cases chars with
  | nil => simp [blank]
  | cons c rest =>
      simp only [blank, Option.mem_def, Option.ite_none_right_eq_some, Option.some.injEq]
      rintro found ⟨here, rfl⟩
      have alike : ∀ d ∈ c :: rest.takeWhile isInlineBlank, isInlineBlank d = true :=
        List.forall_mem_cons.mpr ⟨here, fun d present => List.mem_takeWhile_imp present⟩
      have blanks : ∀ d ∈ c :: rest.takeWhile isInlineBlank,
          Text.isBlank d = true ∧ d ≠ '\n' := by simpa [isInlineBlank] using alike
      exact .blanks blanks

theorem isFront_of_literal
    {c : Char}
    {lexeme : Lexeme}
    (mark : Mark c lexeme)
    (chars : List Char) :
    ∀ found ∈ literal c lexeme chars, found.IsFront := by
  cases chars with
  | nil => simp [literal]
  | cons first rest =>
      simp only [literal, Option.mem_def, Option.ite_none_right_eq_some, Option.some.injEq]
      rintro found ⟨rfl, rfl⟩
      exact .mark mark

theorem isFront_of_quotedString (chars : List Char) :
    ∀ found ∈ quotedString chars, found.IsFront := by
  cases chars with
  | nil => simp [quotedString]
  | cons first others =>
      simp only [quotedString, Option.mem_def, Option.ite_none_right_eq_some]
      rintro found ⟨rfl, taken⟩
      split at taken
      · cases taken
      · next last rest cut =>
          cases taken
          have stopped := stops_of_head?_dropWhile (· ≠ '"') others last (by rw [cut]; rfl)
          obtain rfl : last = '"' := by simpa using stopped
          exact .quoted fun present => by simpa using List.mem_takeWhile_imp present

theorem isFront_of_openString (chars : List Char) :
    ∀ found ∈ openString chars, found.IsFront := by
  cases chars with
  | nil => simp [openString]
  | cons first others =>
      simp only [openString, Option.mem_def, Option.ite_none_right_eq_some, Option.some.injEq]
      rintro found ⟨⟨rfl, quoteless⟩, rfl⟩
      exact .unclosed quoteless

theorem isFront_of_comment (chars : List Char) : ∀ found ∈ comment chars, found.IsFront := by
  cases chars with
  | nil => simp [comment]
  | cons first others =>
      simp only [comment, Option.mem_def, Option.ite_none_right_eq_some, Option.some.injEq]
      rintro found ⟨⟨rfl, opened⟩, rfl⟩
      have opens : ∀ c ∈ (others.takeWhile (· ≠ '\n') ++ others.dropWhile (· ≠ '\n')).head?,
          opensComment c = true := by
        rw [List.takeWhile_append_dropWhile]
        simpa [Option.all_eq_true] using opened
      have inLine : '\n' ∉ others.takeWhile (· ≠ '\n') :=
        fun present => by simpa using List.mem_takeWhile_imp present
      have lineEnds : ∀ c ∈ (others.dropWhile (· ≠ '\n')).head?, c = '\n' := by
        simpa using stops_of_head?_dropWhile (· ≠ '\n') others
      exact .comment opens inLine lineEnds

/-! ### Bare words -/

theorem goesOn_of_mem_takeWhile (chars : List Char) :
    ∀ c ∈ chars.takeWhile fun c => !endsWord c, endsWord c = false :=
  fun c present => by simpa using List.mem_takeWhile_imp present

theorem endsWord_of_head?_dropWhile (chars : List Char) :
    ∀ c ∈ (chars.dropWhile fun c => !endsWord c).head?, endsWord c = true := by
  simpa using stops_of_head?_dropWhile (fun c => !endsWord c) chars

theorem isFront_of_equality (others : List Char) :
    (Match.run bareLexeme (· = '=') '=' others).IsFront := by
  have same : ∀ c ∈ others.takeWhile (· = '='), c = '=' :=
    fun c present => by simpa using List.mem_takeWhile_imp present
  have ends : '=' ∉ (others.dropWhile (· = '=')).head? :=
    fun next => by simpa using stops_of_head?_dropWhile (· = '=') others _ next
  exact .equality same ends

/-- A number sign begins a word where it begins no comment. -/
theorem isFront_of_sharp
    {others : List Char}
    (noComment : comment ('#' :: others) = none) :
    (Match.run bareLexeme (fun c => !endsWord c) '#' others).IsFront := by
  cases others with
  | nil => simp [comment] at noComment
  | cons first others =>
      have plain : opensComment first = false := by simpa [comment] using noComment
      have front := Front.sharp plain (goesOn_of_mem_takeWhile others)
        (endsWord_of_head?_dropWhile others)
      simpa [Match.IsFront, Match.run, bareLexeme, endsWord_of_opensComment plain] using front

theorem isFront_of_word
    {chars : List Char}
    (noComment : comment chars = none) :
    ∀ found ∈ word chars, found.IsFront := by
  cases chars with
  | nil => simp [word]
  | cons first others =>
      intro found taken
      simp only [word, Option.mem_def] at taken
      split_ifs at taken with equality stops
      · cases taken
        exact equality ▸ isFront_of_equality others
      · cases taken
        rw [not_or, Bool.not_eq_true] at stops
        by_cases sharp : first = '#'
        · subst sharp
          exact isFront_of_sharp noComment
        · exact .word ⟨stops.1, stops.2, sharp⟩ (goesOn_of_mem_takeWhile others)
            (endsWord_of_head?_dropWhile others)

/-! ## The choice between them -/

/-- An alternative counts only where no alternative before it matches. -/
theorem isFront_cons
    {chars : List Char}
    {alternative : Alternative}
    {others : List Alternative}
    (first : ∀ found ∈ alternative chars, found.IsFront)
    (later : alternative chars = none →
      ∀ found ∈ others.findSome? fun other => other chars, found.IsFront) :
    ∀ found ∈ (alternative :: others).findSome? fun other => other chars, found.IsFront := by
  rw [List.findSome?_cons]
  cases here : alternative chars with
  | some taken => simpa [here] using first
  | none => exact later here

theorem isFront_of_firstMatch (chars : List Char) : ∀ found ∈ firstMatch chars, found.IsFront :=
  isFront_cons (isFront_of_blank chars) fun _ =>
    isFront_cons (isFront_of_literal .newline chars) fun _ =>
    isFront_cons (isFront_of_literal .semicolon chars) fun _ =>
    isFront_cons (isFront_of_literal .opening chars) fun _ =>
    isFront_cons (isFront_of_literal .closing chars) fun _ =>
    isFront_cons (isFront_of_quotedString chars) fun _ =>
    isFront_cons (isFront_of_openString chars) fun _ =>
    isFront_cons (isFront_of_comment chars) fun noComment =>
    isFront_cons (isFront_of_word noComment) fun _ found taken => by cases taken

theorem ne_of_literal_eq_none
    {mark c : Char}
    {lexeme : Lexeme}
    {others : List Char}
    (refused : literal mark lexeme (c :: others) = none) :
    c ≠ mark := by
  simpa [literal] using refused

/-- A quote begins a string, whether or not another quote closes it. -/
theorem openString_ne_none
    {others : List Char}
    (unclosed : quotedString ('"' :: others) = none) :
    openString ('"' :: others) ≠ none := by
  have quoteless : '"' ∉ others := by
    intro present
    simp only [quotedString, if_true] at unclosed
    split at unclosed
    · next cut => simpa using List.dropWhile_eq_nil_iff.mp cut _ present
    · cases unclosed
  simp [openString, quoteless]

/-- Where no word begins there is a quote or a character that ends words. -/
theorem endsWord_of_word_eq_none
    {c : Char}
    {others : List Char}
    (noQuote : c ≠ '"')
    (refused : word (c :: others) = none) :
    endsWord c = true ∧ c ≠ '=' := by
  by_cases equality : c = '='
  · simp [word, equality] at refused
  · simpa [word, equality, noQuote] using refused

/-- Some alternative matches wherever the text is not at its end. -/
theorem exists_firstMatch {chars : List Char} (present : chars ≠ []) :
    ∃ found, firstMatch chars = some found := by
  obtain ⟨c, others, rfl⟩ := List.exists_cons_of_ne_nil present
  by_contra unmatched
  have refused := Option.eq_none_iff_forall_ne_some.mpr (not_exists.mp unmatched)
  rw [firstMatch, List.findSome?_eq_none_iff] at refused
  simp only [alternatives, List.forall_mem_cons] at refused
  obtain ⟨noBlank, noNewline, noSemicolon, noOpening, noClosing, noString, noOpenString, -, noWord,
    -⟩ := refused
  have marks : c ≠ '\n' ∧ c ≠ ';' ∧ c ≠ '\x7b' ∧ c ≠ '\x7d' :=
    ⟨ne_of_literal_eq_none noNewline, ne_of_literal_eq_none noSemicolon,
      ne_of_literal_eq_none noOpening, ne_of_literal_eq_none noClosing⟩
  have noQuote : c ≠ '"' := by
    rintro rfl
    exact openString_ne_none noString noOpenString
  have ends := endsWord_of_word_eq_none noQuote noWord
  have blankless : Text.isBlank c = false := by simpa [blank, isInlineBlank, marks] using noBlank
  simp [endsWord, wordEnds, blankless, marks] at ends

/-! ## The repetition -/

/-- Where nothing has begun, the grammar finds the tokens that the scanner finds. -/
theorem tokensFrom_eq (offset : Nat) (chars : List Char) :
    tokensFrom offset chars = .ok (Scan.tokensFrom offset .between chars) := by
  fun_induction tokensFrom offset chars with
  | case1 offset chars found taken inductionHypothesis =>
      have scanned := (isFront_of_firstMatch chars found taken).scanned offset
      rw [found.split] at scanned
      rw [inductionHypothesis, scanned]
      rfl
  | case2 offset chars unmatched ended =>
      rw [List.isEmpty_iff.mp ended]
      rfl
  | case3 offset chars unmatched goesOn =>
      obtain ⟨found, taken⟩ := exists_firstMatch (goesOn ∘ List.isEmpty_iff.mpr)
      rw [unmatched] at taken
      cases taken

end Grammar

/-- The grammar accepts every text, and its tokens are those that the scanner finds. -/
theorem tokenize_eq (text : List Char) : tokenize text = .ok (tokens text) := by
  rw [tokenize, Grammar.tokensFrom_eq]
  rfl

/-- A program is read off the tokens that the scanner finds. -/
theorem parseChars_eq_readTokens (text : List Char) :
    parseChars text = readTokens text (tokens text) := by
  rw [parseChars, tokenize_eq]
  rfl

theorem parse_eq_readTokens (text : String) :
    parse text = readTokens text.toList (tokens text.toList) :=
  parseChars_eq_readTokens text.toList

theorem parse_of_readTokens
    {text : String}
    {program : Except ReadError (List Word)}
    (read : readTokens text.toList (tokens text.toList) = program) :
    parse text = program :=
  (parse_eq_readTokens text).trans read

end Source
end Concatenative
