import Concatenative.Proofs.Source.Reading
import Concatenative.Proofs.Source.WellFormed
import Mathlib.Data.List.Induction

/-!
# The first fault

A text that is no program is refused on account of the first of its tokens that cannot be placed.
If every token can be placed, it is refused on account of the innermost brace that is not closed.
Both are said here by counting braces, without the open blocks that the reader keeps.
-/

namespace Concatenative
namespace Source

/-! ## Nesting -/

/-- By how much a token deepens the nesting of blocks. -/
def Token.rise (token : Token) : Int :=
  match token.lexeme with
  | .opening => 1
  | .closing => -1
  | _ => 0

/-- The number of blocks that the tokens open, less the number of those that they close. -/
def depth : List Token → Int
  | [] => 0
  | token :: later => token.rise + depth later

@[simp] theorem depth_nil : depth [] = 0 := rfl

@[simp] theorem depth_cons (token : Token) (tokens : List Token) :
    depth (token :: tokens) = token.rise + depth tokens := rfl

@[simp] theorem depth_append (first second : List Token) :
    depth (first ++ second) = depth first + depth second := by
  induction first with
  | nil => simp
  | cons token first inductionHypothesis => simp [inductionHypothesis, Int.add_assoc]

theorem Token.rise_of_opening
    {token : Token}
    (opens : token.lexeme = .opening) :
    token.rise = 1 := by
  simp [rise, opens]

theorem Token.rise_of_closing
    {token : Token}
    (closes : token.lexeme = .closing) :
    token.rise = -1 := by
  simp [rise, closes]

/-- The tokens close every block that they open, and no other. -/
structure Balanced (tokens : List Token) : Prop where
  /-- As many blocks are closed as are opened. -/
  level : depth tokens = 0
  /-- No block is closed before it has been opened. -/
  above : ∀ front back, tokens = front ++ back → 0 ≤ depth front

theorem balanced_nil : Balanced [] := by
  refine ⟨rfl, ?_⟩
  intro front back split
  rw [(List.append_eq_nil_iff.mp split.symm).1]
  exact Int.le_refl 0

theorem Balanced.append
    {first second : List Token}
    (one : Balanced first)
    (other : Balanced second) :
    Balanced (first ++ second) := by
  refine ⟨by rw [depth_append, one.level, other.level]; rfl, ?_⟩
  intro front back split
  obtain ⟨more, rfl, secondSplit⟩ | ⟨more, firstSplit, _⟩ := List.append_eq_append_iff.mp split
  · have above := other.above more back secondSplit
    rw [depth_append, one.level]
    omega
  · exact one.above front more firstSplit

theorem balanced_singleton
    {token : Token}
    (level : token.rise = 0) :
    Balanced [token] := by
  refine ⟨by simp [level], ?_⟩
  intro front back split
  obtain ⟨rfl, _⟩ | ⟨rfl, _⟩ := List.singleton_eq_append_iff.mp split
  · exact Int.le_refl 0
  · simp [level]

/-- Balanced tokens between braces are balanced. -/
theorem Balanced.braced
    {brace closer : Token}
    {within : List Token}
    (opens : brace.lexeme = .opening)
    (balanced : Balanced within)
    (closes : closer.lexeme = .closing) :
    Balanced (brace :: (within ++ [closer])) := by
  have up := Token.rise_of_opening opens
  have down := Token.rise_of_closing closes
  refine ⟨by simp [up, down, balanced.level], ?_⟩
  intro front back split
  cases front with
  | nil => exact Int.le_refl 0
  | cons first front =>
      rw [List.cons_append] at split
      obtain ⟨rfl, tail⟩ := List.cons.inj split
      rw [depth_cons, up]
      obtain ⟨more, rfl, last⟩ | ⟨more, inner, _⟩ := List.append_eq_append_iff.mp tail
      · rw [depth_append, balanced.level]
        obtain ⟨rfl, _⟩ | ⟨rfl, _⟩ := List.singleton_eq_append_iff.mp last
        · simp
        · simp [down]
      · have above := balanced.above front more inner
        omega

/-- A brace is not the innermost one that stays open if an open one is behind it. -/
theorem Balanced.no_open
    {front back : List Token}
    {brace : Token}
    (opens : brace.lexeme = .opening)
    (around : Balanced (front ++ brace :: back))
    (balanced : Balanced back) :
    False := by
  have above := around.above front (brace :: back) rfl
  have level := around.level
  rw [depth_append, depth_cons, Token.rise_of_opening opens, balanced.level] at level
  omega

/-! ## Blocks that stay open -/

/-- The offsets of the blocks that the tokens leave open, innermost first. The outermost block is
the text, and the others begin at braces. -/
inductive LeftOpen : List Token → List Int → Prop where
  /-- No brace is left open. -/
  | outermost {tokens : List Token} (balanced : Balanced tokens) : LeftOpen tokens [0]
  /-- What follows the innermost brace that is left open is balanced. -/
  | within {before after : List Token} {brace : Token} {starts : List Int}
      (outer : LeftOpen before starts)
      (opens : brace.lexeme = .opening)
      (balanced : Balanced after) :
      LeftOpen (before ++ brace :: after) (brace.offset :: starts)

/-- How a token changes the offsets of the open blocks. -/
inductive Shifts (token : Token) : List Int → List Int → Prop where
  /-- An opening brace opens one more. -/
  | opening {starts : List Int}
      (opens : token.lexeme = .opening) :
      Shifts token starts (token.offset :: starts)
  /-- A closing brace closes the innermost one, which is not the only one. -/
  | closing {start around : Int} {starts : List Int}
      (closes : token.lexeme = .closing) :
      Shifts token (start :: around :: starts) (around :: starts)
  /-- Any other token leaves them alone. -/
  | level {starts : List Int}
      (level : token.rise = 0) :
      Shifts token starts starts

namespace LeftOpen

variable {tokens : List Token} {starts : List Int}

theorem length_eq_depth (leftOpen : LeftOpen tokens starts) : starts.length = depth tokens + 1 := by
  induction leftOpen with
  | outermost balanced =>
      rw [balanced.level]
      rfl
  | within outer opens balanced inductionHypothesis =>
      rw [depth_append, depth_cons, Token.rise_of_opening opens, balanced.level, List.length_cons]
      omega

theorem append
    {more : List Token}
    (leftOpen : LeftOpen tokens starts)
    (balanced : Balanced more) :
    LeftOpen (tokens ++ more) starts := by
  cases leftOpen with
  | outermost before => exact .outermost (before.append balanced)
  | within outer opens after =>
      rw [List.append_assoc, List.cons_append]
      exact .within outer opens (after.append balanced)

theorem concat
    {token : Token}
    {next : List Int}
    (leftOpen : LeftOpen tokens starts)
    (shifts : Shifts token starts next) :
    LeftOpen (tokens ++ [token]) next := by
  cases shifts with
  | opening opens => exact .within leftOpen opens balanced_nil
  | level level => exact leftOpen.append (balanced_singleton level)
  | closing closes =>
      cases leftOpen with
      | within outer opens balanced =>
          rw [List.append_assoc, List.cons_append]
          exact outer.append (balanced.braced opens closes)

/-- The innermost block that is left open begins at a brace unless it is the only one. -/
theorem exists_brace
    {start around : Int}
    (leftOpen : LeftOpen tokens (start :: around :: starts)) :
    ∃ before brace after, tokens = before ++ brace :: after ∧ brace.lexeme = .opening ∧
      Balanced after ∧ start = brace.offset := by
  cases leftOpen with
  | within outer opens balanced => exact ⟨_, _, _, rfl, opens, balanced, rfl⟩

end LeftOpen

/-! ## Faults -/

/-- The characters behind a number sign are a number of base sixteen in range. -/
def HexNumeral (digits : List Char) : Prop :=
  digits ≠ [] ∧ (∀ c ∈ digits, Text.isHexDigit c = true) ∧ Text.numberOf 16 digits ≤ maxHex

/-- A token is at fault at a depth of nesting, and why it is refused. -/
inductive Fault (text : List Char) (depth : Int) (token : Token) : ReadError → Prop where
  /-- A closing brace outside of all braces. -/
  | closing
      (lexeme : token.lexeme = .closing)
      (outermost : depth = 0) :
      Fault text depth token (.flawed (.locate .missingOpenBrace text token.offset))
  /-- A string that nothing closes. -/
  | unclosed {content : String}
      (lexeme : token.lexeme = .unclosed content) :
      Fault text depth token (.flawed (.locate .missingEndQuote text token.offset))
  /-- A number sign without a number of base sixteen in range. -/
  | hex {content : String} {digits : List Char}
      (lexeme : token.lexeme = .bare content)
      (sharp : content.toList = '#' :: digits)
      (bad : ¬ HexNumeral digits) :
      Fault text depth token (.flawed (.locate .badHexLiteral text token.offset))
  /-- A decimal numeral with too many digits. -/
  | oversized {content : String} {negative : Bool} {digits : List Char}
      (lexeme : token.lexeme = .bare content)
      (numeral : Numeral content.toList negative digits)
      (many : maxDigits < digits.length) :
      Fault text depth token (.oversized digits.length)

/-- None of the tokens is at fault at its depth. -/
def Faultless (text : List Char) (tokens : List Token) : Prop :=
  ∀ before token after error, tokens = before ++ token :: after →
    ¬ Fault text (depth before) token error

/-- What the tokens of a text are to be refused for. -/
inductive Blames (text : List Char) (tokens : List Token) : ReadError → Prop where
  /-- The first token at fault. -/
  | fault {before after : List Token} {token : Token} {error : ReadError}
      (split : tokens = before ++ token :: after)
      (faultless : Faultless text before)
      (fault : Fault text (depth before) token error) :
      Blames text tokens error
  /-- Without such a token, the innermost brace that is not closed. -/
  | unclosed {before after : List Token} {brace : Token}
      (faultless : Faultless text tokens)
      (split : tokens = before ++ brace :: after)
      (opens : brace.lexeme = .opening)
      (balanced : Balanced after) :
      Blames text tokens (.flawed (.locate .missingCloseBrace text brace.offset))

theorem faultless_nil (text : List Char) : Faultless text [] := by
  intro before token after error split
  simp at split

theorem Faultless.front
    {text : List Char}
    {front back : List Token}
    (faultless : Faultless text (front ++ back)) :
    Faultless text front := by
  rintro before token after error rfl
  apply faultless before token (after ++ back) error
  rw [List.append_assoc, List.cons_append]

theorem faultless_concat
    {text : List Char}
    {tokens : List Token}
    {token : Token} :
    Faultless text (tokens ++ [token]) ↔
      Faultless text tokens ∧ ∀ error, ¬ Fault text (depth tokens) token error := by
  constructor
  · intro faultless
    exact ⟨faultless.front, fun error => faultless tokens token [] error rfl⟩
  · rintro ⟨faultless, last⟩ before earlier after error split
    rcases after.eq_nil_or_concat with rfl | ⟨after, final, rfl⟩
    · obtain ⟨rfl, same⟩ := List.append_inj' split rfl
      obtain rfl := List.singleton_inj.mp same
      exact last error
    · rw [List.concat_eq_append, ← List.cons_append, ← List.append_assoc] at split
      obtain ⟨rfl, _⟩ := List.append_inj' split rfl
      exact faultless before earlier after error rfl

/-- If some token is at fault, there is a first one. -/
theorem exists_first_fault
    {text : List Char}
    {tokens : List Token}
    (faulty : ¬ Faultless text tokens) :
    ∃ before token after error, tokens = before ++ token :: after ∧ Faultless text before ∧
      Fault text (depth before) token error := by
  induction tokens using List.reverseRecOn with
  | nil => exact absurd (faultless_nil text) faulty
  | append_singleton tokens token inductionHypothesis =>
      by_cases faultless : Faultless text tokens
      · rw [faultless_concat, not_and] at faulty
        obtain ⟨error, fault⟩ := Classical.not_forall_not.mp (faulty faultless)
        exact ⟨tokens, token, [], error, rfl, faultless, fault⟩
      · obtain ⟨before, first, after, error, rfl, clean, fault⟩ := inductionHypothesis faultless
        refine ⟨before, first, after ++ [token], error, ?_, clean, fault⟩
        rw [List.append_assoc, List.cons_append]

/-! ## Words that cannot be read -/

theorem readHex_of_hexNumeral
    {digits : List Char}
    (numeral : HexNumeral digits) :
    readHex digits = .ok (.hex (Text.numberOf 16 digits)) := by
  obtain ⟨present, each, inRange⟩ := numeral
  simp [readHex, present, List.all_eq_true.mpr each, Nat.not_lt.mpr inRange]

theorem readHex_of_not_hexNumeral
    {digits : List Char}
    (bad : ¬ HexNumeral digits) :
    readHex digits = .error .badHex := by
  unfold readHex
  split_ifs with malformed large
  · rfl
  · rfl
  · have spelled : digits ≠ [] ∧ ∀ c ∈ digits, Text.isHexDigit c = true := by
      simpa using malformed
    exact absurd ⟨spelled.1, spelled.2, Nat.le_of_not_lt large⟩ bad

theorem exists_numeral_of_readPlain
    {chars : List Char}
    {misreading : Misreading}
    (refused : readPlain chars = .error misreading) :
    ∃ negative digits, Numeral chars negative digits ∧ maxDigits < digits.length := by
  cases plainReading chars with
  | atom noInteger read | int inside read =>
      rw [read] at refused
      cases refused
  | oversized numeral many read => exact ⟨_, _, numeral, many⟩

theorem Numeral.readWord_eq
    {chars digits : List Char}
    {negative : Bool}
    (numeral : Numeral chars negative digits) :
    readWord chars = readPlain chars := by
  unfold readWord
  split
  · cases numeral with
    | unsigned decimal => exact absurd rfl (decimal.first_ne (by decide))
  · rfl

/-- A bare word is read, or its token is at fault at every depth. -/
theorem exists_word_of_no_fault
    {text : List Char}
    {depth : Int}
    {token : Token}
    {content : String}
    (lexeme : token.lexeme = .bare content)
    (faultless : ∀ error, ¬ Fault text depth token error) :
    ∃ word, readWord content.toList = .ok word := by
  cases read : readWord content.toList with
  | ok word => exact ⟨word, rfl⟩
  | error misreading =>
      unfold readWord at read
      split at read
      next digits sharp =>
        by_cases numeral : HexNumeral digits
        · rw [readHex_of_hexNumeral numeral] at read
          cases read
        · exact absurd (.hex lexeme sharp numeral) (faultless _)
      · obtain ⟨negative, digits, numeral, many⟩ := exists_numeral_of_readPlain read
        exact absurd (.oversized lexeme numeral many) (faultless _)

/-! ## Reading up to a fault -/

section Reading

variable {text : List Char} {token : Token} {block : Block} {outer : List Block}

/-- A token at fault is refused. -/
theorem place_of_fault
    {error : ReadError}
    (fault : Fault text outer.length token error) :
    place text (block :: outer) token = .error error := by
  cases fault with
  | closing lexeme outermost =>
      obtain rfl : outer = [] := by simpa using outermost
      exact place_closing_alone block lexeme
  | unclosed lexeme => exact place_unclosed lexeme
  | hex lexeme sharp bad =>
      have read : readWord ('#' :: _) = .error .badHex := readHex_of_not_hexNumeral bad
      simp only [place, lexeme, sharp, read]
  | oversized lexeme numeral many =>
      simp only [place, lexeme, numeral.readWord_eq, readPlain_of_oversized numeral many]

/-- A token that is not at fault is placed. -/
theorem exists_place
    (block : Block)
    (faultless : ∀ error, ¬ Fault text outer.length token error) :
    ∃ inner around, place text (block :: outer) token = .ok (inner :: around) ∧
      Shifts token ((block :: outer).map Block.start) ((inner :: around).map Block.start) := by
  cases lexeme : token.lexeme with
  | newline =>
      exact ⟨_, _, place_separator .newline lexeme, .level (by simp [Token.rise, lexeme])⟩
  | semicolon =>
      exact ⟨_, _, place_separator .semicolon lexeme, .level (by simp [Token.rise, lexeme])⟩
  | opening => exact ⟨_, _, place_opening lexeme, .opening lexeme⟩
  | closing =>
      cases outer with
      | nil => exact absurd (.closing lexeme rfl) (faultless _)
      | cons around outer => exact ⟨_, _, place_closing lexeme, .closing lexeme⟩
  | quoted content =>
      exact ⟨_, _, place_quoted lexeme, .level (by simp [Token.rise, lexeme])⟩
  | unclosed content => exact absurd (.unclosed lexeme) (faultless _)
  | bare content =>
      obtain ⟨word, good⟩ := exists_word_of_no_fault lexeme faultless
      exact ⟨_, _, place_bare lexeme good, .level (by simp [Token.rise, lexeme])⟩

/-- Tokens without a fault are read, and the blocks that are open then are those left open. -/
theorem exists_read
    {tokens : List Token}
    (faultless : Faultless text tokens) :
    ∃ block outer, tokens.foldlM (place text) [{ start := 0 }] = .ok (block :: outer) ∧
      LeftOpen tokens ((block :: outer).map Block.start) ∧ outer.length = depth tokens := by
  induction tokens using List.reverseRecOn with
  | nil => exact ⟨_, _, rfl, .outermost balanced_nil, rfl⟩
  | append_singleton tokens token inductionHypothesis =>
      obtain ⟨earlier, last⟩ := faultless_concat.mp faultless
      obtain ⟨block, outer, read, leftOpen, deep⟩ := inductionHypothesis earlier
      rw [← deep] at last
      obtain ⟨inner, around, placed, shifts⟩ := exists_place block last
      have leftOpenNext := leftOpen.concat shifts
      have length := leftOpenNext.length_eq_depth
      rw [List.length_map, List.length_cons] at length
      refine ⟨inner, around, ?_, leftOpenNext, by omega⟩
      rw [read_append read, read_cons placed]
      rfl

/-! ## Refusals -/

/-- The first token at fault is what a text is refused for. -/
theorem parseChars_of_fault
    {before after : List Token}
    {error : ReadError}
    (split : tokens text = before ++ token :: after)
    (faultless : Faultless text before)
    (fault : Fault text (depth before) token error) :
    parseChars text = .error error := by
  obtain ⟨block, outer, read, _, deep⟩ := exists_read faultless
  rw [← deep] at fault
  rw [parseChars_eq_readTokens, readTokens, split, read_append read,
    read_refused (place_of_fault fault)]
  rfl

/-- What comes of a text without a fault is decided by the blocks that are left open. -/
theorem exists_parseChars_of_faultless
    (faultless : Faultless text (tokens text)) :
    ∃ block outer, parseChars text = conclude text (block :: outer) ∧
      LeftOpen (tokens text) ((block :: outer).map Block.start) ∧
      outer.length = depth (tokens text) := by
  obtain ⟨block, outer, read, leftOpen, deep⟩ := exists_read faultless
  refine ⟨block, outer, ?_, leftOpen, deep⟩
  rw [parseChars_eq_readTokens, readTokens, read]
  rfl

/-- The innermost brace that is not closed is what a text without a fault is refused for. -/
theorem blames_of_faultless
    {error : ReadError}
    (faultless : Faultless text (tokens text))
    (refused : parseChars text = .error error) :
    Blames text (tokens text) error := by
  obtain ⟨block, outer, concluded, leftOpen, _⟩ := exists_parseChars_of_faultless faultless
  rw [refused] at concluded
  cases outer with
  | nil => cases concluded
  | cons around outer =>
      cases concluded
      obtain ⟨before, brace, after, split, opens, balanced, start⟩ := leftOpen.exists_brace
      rw [start]
      exact .unclosed faultless split opens balanced

/-- Two innermost braces that are not closed are the same brace. -/
theorem innermost_unique
    {before after otherBefore otherAfter : List Token}
    {brace other : Token}
    (same : before ++ brace :: after = otherBefore ++ other :: otherAfter)
    (opens : brace.lexeme = .opening)
    (otherOpens : other.lexeme = .opening)
    (balanced : Balanced after)
    (otherBalanced : Balanced otherAfter) :
    brace = other := by
  obtain ⟨more, _, split⟩ | ⟨more, _, split⟩ := List.append_eq_append_iff.mp same
  · cases more with
    | nil => exact (List.cons.inj split).1
    | cons first more =>
        obtain ⟨_, rfl⟩ := List.cons.inj split
        exact (balanced.no_open otherOpens otherBalanced).elim
  · cases more with
    | nil => exact (List.cons.inj split).1.symm
    | cons first more =>
        obtain ⟨_, rfl⟩ := List.cons.inj split
        exact (otherBalanced.no_open opens balanced).elim

theorem parseChars_of_blames
    {error : ReadError}
    (blames : Blames text (tokens text) error) :
    parseChars text = .error error := by
  cases blames with
  | fault split faultless fault => exact parseChars_of_fault split faultless fault
  | @unclosed before after brace faultless split opens balanced =>
      obtain ⟨block, outer, concluded, leftOpen, deep⟩ := exists_parseChars_of_faultless faultless
      cases outer with
      | nil =>
          -- The tokens before the brace leave some blocks open, and the brace one more.
          rw [split] at faultless deep
          obtain ⟨_, earlierOuter, _, _, earlier⟩ := exists_read faultless.front
          rw [depth_append, depth_cons, Token.rise_of_opening opens, balanced.level] at deep
          simp only [List.length_nil] at deep
          omega
      | cons around outer =>
          obtain ⟨otherBefore, other, otherAfter, otherSplit, otherOpens, otherBalanced, start⟩ :=
            leftOpen.exists_brace
          have same := innermost_unique (split.symm.trans otherSplit) opens otherOpens balanced
            otherBalanced
          rw [concluded, same, ← start]
          rfl

theorem blames_of_parseChars
    {error : ReadError}
    (refused : parseChars text = .error error) :
    Blames text (tokens text) error := by
  by_cases faultless : Faultless text (tokens text)
  · exact blames_of_faultless faultless refused
  · obtain ⟨before, token, after, first, split, clean, fault⟩ := exists_first_fault faultless
    rw [parseChars_of_fault split clean fault] at refused
    cases refused
    exact .fault split clean fault

/-- No token of a program is at fault, and every brace is closed. -/
theorem closed_of_parseChars
    {words : List Word}
    (parsed : parseChars text = .ok words) :
    Faultless text (tokens text) ∧ depth (tokens text) = 0 := by
  by_cases faultless : Faultless text (tokens text)
  · obtain ⟨block, outer, concluded, _, deep⟩ := exists_parseChars_of_faultless faultless
    rw [parsed] at concluded
    cases outer with
    | nil => exact ⟨faultless, deep.symm⟩
    | cons around outer => cases concluded
  · obtain ⟨before, token, after, first, split, clean, fault⟩ := exists_first_fault faultless
    rw [parseChars_of_fault split clean fault] at parsed
    cases parsed

end Reading

/-- A text is refused for the first of its tokens that is at fault, and without such a token for
the innermost brace that is not closed; it is a program if no token is at fault and every brace is
closed. -/
theorem parse_blames_first_fault (text : String) :
    (∀ error,
      parse text = .error error ↔ Blames text.toList (tokens text.toList) error) ∧
    ((∃ words, parse text = .ok words) ↔
      Faultless text.toList (tokens text.toList) ∧ depth (tokens text.toList) = 0) := by
  refine ⟨fun error => ⟨blames_of_parseChars, parseChars_of_blames⟩, ?_, ?_⟩
  · rintro ⟨words, parsed⟩
    exact closed_of_parseChars parsed
  · rintro ⟨faultless, level⟩
    obtain ⟨block, outer, concluded, _, deep⟩ := exists_parseChars_of_faultless faultless
    rw [level] at deep
    obtain rfl : outer = [] := by simpa using deep
    exact ⟨_, concluded⟩

end Source
end Concatenative
