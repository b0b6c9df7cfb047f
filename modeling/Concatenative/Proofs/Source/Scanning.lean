import Concatenative.Source.Token
import Mathlib.Tactic.SplitIfs

/-!
# Scanning

What the scanner makes of the characters of one token, and which characters the tokens of a text
consist of.
-/

namespace Concatenative
namespace Source

/-- The character can begin a bare word, the number sign apart. -/
def StartsWord (c : Char) : Prop :=
  endsWord c = false ∧ c ≠ '"' ∧ c ≠ '#'

/-- The characters of a bare word that has no number sign in front. -/
inductive Plain : List Char → Prop where
  /-- A run of equality signs. -/
  | equals (count : Nat) : Plain (List.replicate (count + 1) '=')
  /-- Any other word. -/
  | word {first : Char} {rest : List Char}
      (begins : StartsWord first)
      (goesOn : ∀ c ∈ rest, endsWord c = false) :
      Plain (first :: rest)

/-- The characters of a bare word. -/
inductive Bare : List Char → Prop where
  /-- A word without number sign. -/
  | plain {chars : List Char} (spelled : Plain chars) : Bare chars
  /-- A word that begins with a number sign and is no comment. -/
  | sharp {first : Char} {rest : List Char}
      (noComment : opensComment first = false)
      (goesOn : ∀ c ∈ rest, endsWord c = false) :
      Bare ('#' :: first :: rest)

/-- Nothing follows, or a blank. -/
def AtBlank (rest : List Char) : Prop :=
  ∀ c ∈ rest.head?, Text.isBlank c = true

theorem atBlank_nil : AtBlank [] := by
  intro c present
  cases present

theorem endsWord_of_isBlank {c : Char} (blank : Text.isBlank c = true) : endsWord c = true := by
  simp [endsWord, blank]

theorem AtBlank.endsWords
    {rest : List Char}
    (ends : AtBlank rest) :
    ∀ c ∈ rest.head?, endsWord c = true :=
  fun c next => endsWord_of_isBlank (ends c next)

theorem endsWord_of_opensComment {c : Char} (plain : opensComment c = false) :
    endsWord c = false := by
  simp only [opensComment, Bool.or_eq_false_iff] at plain
  exact plain.1

theorem ne_of_endsWord
    {c ending : Char}
    (goesOn : endsWord c = false)
    (ends : endsWord ending = true) :
    c ≠ ending := by
  rintro rfl
  rw [goesOn] at ends
  cases ends

namespace Scan

variable (offset : Nat)

theorem opens_of_startsWord {c : Char} (begins : StartsWord c) :
    opens offset c = ([], .word offset [c]) := by
  obtain ⟨goesOn, noQuote, noSharp⟩ := begins
  have noBlank : Text.isBlank c = false := by
    simp only [endsWord, Bool.or_eq_false_iff] at goesOn
    exact goesOn.1
  have others : c ≠ '\n' ∧ c ≠ ';' ∧ c ≠ '\x7b' ∧ c ≠ '\x7d' ∧ c ≠ '=' := by
    refine ⟨?_, ?_, ?_, ?_, ?_⟩ <;> exact ne_of_endsWord goesOn (by decide)
  simp [opens, others, noQuote, noSharp, noBlank]

/-- Characters that are only collected complete no token. -/
theorem tokensFrom_collected
    (mode : List Char → Mode)
    (seen : List Char)
    {chars : List Char}
    (collects : ∀ c ∈ chars, ∀ offset seen,
      advance offset c (mode seen) = ([], mode (c :: seen)))
    (rest : List Char) :
    tokensFrom offset (mode seen) (chars ++ rest) =
      tokensFrom (offset + chars.length) (mode (chars.reverse ++ seen)) rest := by
  induction chars generalizing offset seen with
  | nil => rfl
  | cons c chars inductionHypothesis =>
      rw [List.forall_mem_cons] at collects
      have later := inductionHypothesis (offset + 1) (c :: seen) collects.2
      rw [List.cons_append, tokensFrom_cons, collects.1, List.nil_append, later, List.length_cons,
        List.reverse_cons, List.append_assoc, List.singleton_append, Nat.add_comm chars.length,
        ← Nat.add_assoc]

/-! ## Bare words -/

theorem tokensFrom_word
    (start : Nat)
    (seen : List Char)
    {chars : List Char}
    (goesOn : ∀ c ∈ chars, endsWord c = false)
    (rest : List Char) :
    tokensFrom offset (.word start seen) (chars ++ rest) =
      tokensFrom (offset + chars.length) (.word start (chars.reverse ++ seen)) rest := by
  refine tokensFrom_collected offset (.word start) seen ?_ rest
  intro c present offset seen
  simp [advance, goesOn c present]

theorem tokensFrom_equals
    (start count more : Nat)
    (rest : List Char) :
    tokensFrom offset (.equals start count) (List.replicate more '=' ++ rest) =
      tokensFrom (offset + more) (.equals start (count + more)) rest := by
  induction more generalizing offset count with
  | zero => rfl
  | succ more inductionHypothesis =>
      rw [List.replicate_succ, List.cons_append, tokensFrom_cons]
      change tokensFrom (offset + 1) (.equals start (count + 1)) _ = _
      rw [inductionHypothesis, Nat.add_assoc, Nat.add_comm 1, Nat.add_assoc, Nat.add_comm 1]

/-- A bare word ends before a character that ends words and at the end of the text. -/
theorem tokensFrom_word_ends
    (start : Nat)
    (seen : List Char)
    {rest : List Char}
    (ends : ∀ c ∈ rest.head?, endsWord c = true) :
    tokensFrom offset (.word start seen) rest =
      ⟨bareWord seen, start⟩ :: tokensFrom offset .between rest := by
  cases rest with
  | nil => rfl
  | cons c rest =>
      have here : endsWord c = true := ends c rfl
      simp [tokensFrom_cons, advance, here]

/-- A run of equality signs ends before another character and at the end of the text. -/
theorem tokensFrom_equals_ends
    (start count : Nat)
    {rest : List Char}
    (ends : '=' ∉ rest.head?) :
    tokensFrom offset (.equals start count) rest =
      ⟨equalsWord count, start⟩ :: tokensFrom offset .between rest := by
  cases rest with
  | nil => rfl
  | cons c rest =>
      have here : c ≠ '=' := fun equal => ends (congrArg some equal)
      simp [tokensFrom_cons, advance, here]

/-- A run of equality signs is one token. -/
theorem tokensFrom_run
    (count : Nat)
    {rest : List Char}
    (ends : '=' ∉ rest.head?) :
    tokensFrom offset .between (List.replicate (count + 1) '=' ++ rest) =
      ⟨equalsWord (count + 1), offset⟩ :: tokensFrom (offset + (count + 1)) .between rest := by
  rw [List.replicate_succ, List.cons_append, tokensFrom_cons]
  change tokensFrom (offset + 1) (.equals offset 1) _ = _
  rw [tokensFrom_equals, tokensFrom_equals_ends _ _ _ ends, Nat.add_assoc, Nat.add_comm 1]

/-- Equality signs up to another character or the end are one token. -/
theorem tokensFrom_equality
    {others rest : List Char}
    (same : ∀ c ∈ others, c = '=')
    (ends : '=' ∉ rest.head?) :
    tokensFrom offset .between ('=' :: (others ++ rest)) =
      ⟨.bare (String.ofList ('=' :: others)), offset⟩ ::
        tokensFrom (offset + (others.length + 1)) .between rest := by
  obtain ⟨count, rfl⟩ : ∃ count, others = List.replicate count '=' :=
    ⟨_, List.eq_replicate_of_mem same⟩
  rw [List.length_replicate]
  exact tokensFrom_run offset count ends

/-- A word that begins with neither an equality sign nor a number sign is one token. -/
theorem tokensFrom_startsWord
    {first : Char}
    {others rest : List Char}
    (begins : StartsWord first)
    (goesOn : ∀ c ∈ others, endsWord c = false)
    (ends : ∀ c ∈ rest.head?, endsWord c = true) :
    tokensFrom offset .between (first :: (others ++ rest)) =
      ⟨.bare (String.ofList (first :: others)), offset⟩ ::
        tokensFrom (offset + (others.length + 1)) .between rest := by
  rw [tokensFrom_cons, advance, opens_of_startsWord offset begins, List.nil_append,
    tokensFrom_word _ _ _ goesOn, tokensFrom_word_ends _ _ _ ends, bareWord, Nat.add_assoc,
    Nat.add_comm 1]
  simp

/-- A word that begins with a number sign is one token. -/
theorem tokensFrom_sharp
    {first : Char}
    {others rest : List Char}
    (noComment : opensComment first = false)
    (goesOn : ∀ c ∈ others, endsWord c = false)
    (ends : ∀ c ∈ rest.head?, endsWord c = true) :
    tokensFrom offset .between ('#' :: first :: (others ++ rest)) =
      ⟨.bare (String.ofList ('#' :: first :: others)), offset⟩ ::
        tokensFrom (offset + (others.length + 2)) .between rest := by
  rw [tokensFrom_cons]
  change tokensFrom (offset + 1) (.sharp offset) _ = _
  rw [tokensFrom_cons]
  simp only [advance, noComment, Bool.false_eq_true, if_false, List.nil_append]
  rw [tokensFrom_word _ _ _ goesOn, tokensFrom_word_ends _ _ _ ends, bareWord]
  simp
  ac_rfl

/-- The characters of a bare word are one token before a blank and at the end of the text. -/
theorem tokensFrom_bare
    {chars : List Char}
    (bare : Bare chars)
    {rest : List Char}
    (ends : AtBlank rest) :
    tokensFrom offset .between (chars ++ rest) =
      ⟨.bare (String.ofList chars), offset⟩ ::
        tokensFrom (offset + chars.length) .between rest := by
  cases bare with
  | plain spelled =>
      cases spelled with
      | equals count =>
          have noEquals : '=' ∉ rest.head? := fun next => absurd (ends _ next) (by decide)
          rw [tokensFrom_run offset count noEquals, List.length_replicate, equalsWord]
      | word begins goesOn => exact tokensFrom_startsWord offset begins goesOn ends.endsWords
  | sharp noComment goesOn => exact tokensFrom_sharp offset noComment goesOn ends.endsWords

/-! ## Strings -/

theorem tokensFrom_string
    (start : Nat)
    (seen : List Char)
    {chars : List Char}
    (quoteless : '"' ∉ chars)
    (rest : List Char) :
    tokensFrom offset (.string start seen) (chars ++ rest) =
      tokensFrom (offset + chars.length) (.string start (chars.reverse ++ seen)) rest := by
  refine tokensFrom_collected offset (.string start) seen ?_ rest
  intro c present offset seen
  have noQuote : c ≠ '"' := fun quote => quoteless (quote ▸ present)
  simp [advance, noQuote]

/-- The characters between two quotes are one token. -/
theorem tokensFrom_quoted
    {chars : List Char}
    (quoteless : '"' ∉ chars)
    (rest : List Char) :
    tokensFrom offset .between ('"' :: (chars ++ '"' :: rest)) =
      ⟨.quoted (String.ofList chars), offset⟩ ::
        tokensFrom (offset + (chars.length + 2)) .between rest := by
  rw [tokensFrom_cons]
  change tokensFrom (offset + 1) (.string offset []) _ = _
  rw [tokensFrom_string _ _ _ quoteless, tokensFrom_cons, List.append_nil]
  change ⟨stringLexeme chars.reverse, offset⟩ :: tokensFrom _ .between rest = _
  rw [stringLexeme, List.reverse_reverse]
  congr 2
  omega

/-- Everything behind a quote that no other follows is one token. -/
theorem tokensFrom_unclosed {chars : List Char} (quoteless : '"' ∉ chars) :
    tokensFrom offset .between ('"' :: chars) =
      [⟨.unclosed (String.ofList ('"' :: chars)), offset⟩] := by
  have collected := tokensFrom_string (offset + 1) offset [] quoteless []
  rw [List.append_nil, List.append_nil] at collected
  rw [tokensFrom_cons]
  change tokensFrom (offset + 1) (.string offset []) chars = _
  rw [collected, tokensFrom_nil, finish, List.reverse_reverse]

/-! ## Blanks and comments -/

theorem opens_of_isBlank
    {c : Char}
    (blank : Text.isBlank c = true)
    (inLine : c ≠ '\n') :
    opens offset c = ([], .between) := by
  have others : c ≠ ';' ∧ c ≠ '\x7b' ∧ c ≠ '\x7d' ∧ c ≠ '"' ∧ c ≠ '#' ∧ c ≠ '=' := by
    refine ⟨?_, ?_, ?_, ?_, ?_, ?_⟩ <;>
      · rintro rfl
        exact absurd blank (by decide)
  simp [opens, inLine, others, blank]

/-- Blanks within a line are skipped. -/
theorem tokensFrom_blanks
    {chars : List Char}
    (blanks : ∀ c ∈ chars, Text.isBlank c = true ∧ c ≠ '\n')
    (rest : List Char) :
    tokensFrom offset .between (chars ++ rest) =
      tokensFrom (offset + chars.length) .between rest := by
  refine tokensFrom_collected offset (fun _ => .between) [] ?_ rest
  intro c present offset _
  exact opens_of_isBlank offset (blanks c present).1 (blanks c present).2

/-- A comment is skipped up to the end of its line. -/
theorem tokensFrom_comment
    {body rest : List Char}
    (opened : ∀ c ∈ (body ++ rest).head?, opensComment c = true)
    (inLine : '\n' ∉ body)
    (lineEnds : ∀ c ∈ rest.head?, c = '\n') :
    tokensFrom offset .between ('#' :: (body ++ rest)) =
      tokensFrom (offset + (body.length + 1)) .between rest := by
  have collects : ∀ c ∈ body, ∀ offset (_ : List Char),
      advance offset c .comment = ([], .comment) := by
    intro c present offset _
    have other : c ≠ '\n' := fun equal => inLine (equal ▸ present)
    simp [advance, comments, other]
  have ended : tokensFrom (offset + 1) .comment (body ++ rest) =
      tokensFrom (offset + (body.length + 1)) .between rest := by
    rw [tokensFrom_collected (offset + 1) (fun _ => .comment) [] collects, Nat.add_assoc,
      Nat.add_comm 1]
    cases rest with
    | nil => rfl
    | cons c rest =>
        cases lineEnds c rfl
        rfl
  rw [tokensFrom_cons, ← ended]
  change tokensFrom (offset + 1) (.sharp offset) _ = _
  -- The character behind the number sign decides that this is a comment, and belongs to it.
  cases whole : body ++ rest with
  | nil => rfl
  | cons c others =>
      have opens : opensComment c = true := opened c (by rw [whole]; rfl)
      simp [tokensFrom_cons, advance, opens]

end Scan

/-! ## What tokens consist of -/

/-- A bare word and a string have the characters that such a token can have. -/
def Lexeme.Proper : Lexeme → Prop
  | .bare text => Bare text.toList
  | .quoted text => '"' ∉ text.toList ∧ '\t' ∉ text.toList
  | _ => True

namespace Scan

/-- What is being scanned will be a proper lexeme, wherever it ends. -/
def Mode.Proper : Mode → Prop
  | .word _ seen =>
    -- The next character may end the word or belong to it, so both have to give a bare word.
    ∀ rest : List Char, (∀ c ∈ rest, endsWord c = false) → Bare (seen.reverse ++ rest)
  | .equals _ count => 0 < count
  | .string _ seen => '"' ∉ seen ∧ '\t' ∉ seen
  | _ => True

/-- The tokens are proper, and so will be what is being scanned after them. -/
def Proper (scanned : List Token × Mode) : Prop :=
  (∀ token ∈ scanned.1, token.lexeme.Proper) ∧ scanned.2.Proper

theorem proper_nil {mode : Mode} (proper : mode.Proper) : Proper ([], mode) :=
  ⟨fun _ present => absurd present List.not_mem_nil, proper⟩

theorem proper_between : Mode.between.Proper := trivial

theorem Proper.cons
    {token : Token}
    {scanned : List Token × Mode}
    (first : token.lexeme.Proper)
    (others : Proper scanned) :
    Proper (token :: scanned.1, scanned.2) := by
  refine ⟨?_, others.2⟩
  intro later present
  rcases List.mem_cons.mp present with rfl | present
  · exact first
  · exact others.1 later present

theorem proper_singleton
    {token : Token}
    (proper : token.lexeme.Proper) :
    Proper ([token], .between) :=
  (proper_nil proper_between).cons proper

theorem proper_word
    {start : Nat}
    {seen : List Char}
    (proper : (Mode.word start seen).Proper) :
    (bareWord seen).Proper := by
  have bare := proper [] (fun _ present => absurd present List.not_mem_nil)
  simpa [bareWord, Lexeme.Proper] using bare

theorem proper_word_cons
    {start : Nat}
    {seen : List Char}
    {c : Char}
    (proper : (Mode.word start seen).Proper)
    (goesOn : endsWord c = false) :
    (Mode.word start (c :: seen)).Proper := by
  intro rest later
  have bare := proper (c :: rest) (List.forall_mem_cons.mpr ⟨goesOn, later⟩)
  simpa using bare

theorem proper_equals {count : Nat} (positive : 0 < count) : (equalsWord count).Proper := by
  obtain ⟨fewer, rfl⟩ := Nat.exists_eq_add_one.mpr positive
  simpa [equalsWord, Lexeme.Proper] using Bare.plain (.equals fewer)

theorem proper_string
    {start : Nat}
    {seen : List Char}
    (proper : (Mode.string start seen).Proper) :
    (stringLexeme seen).Proper := by
  obtain ⟨quoteless, tabless⟩ := proper
  simp [stringLexeme, Lexeme.Proper, quoteless, tabless]

theorem opens_proper (offset : Nat) (c : Char) : Proper (opens offset c) := by
  unfold opens
  split_ifs with newline semicolon opening closing quote sharp equals blank
  · exact proper_singleton trivial
  · exact proper_singleton trivial
  · exact proper_singleton trivial
  · exact proper_singleton trivial
  · exact proper_nil ⟨List.not_mem_nil, List.not_mem_nil⟩
  · exact proper_nil trivial
  · exact proper_nil Nat.one_pos
  · exact proper_nil trivial
  · refine proper_nil fun rest goesOn => .plain (.word ⟨?_, quote, sharp⟩ goesOn)
    simp [endsWord, wordEnds, blank, opening, closing, semicolon, equals]

theorem comments_proper (offset : Nat) (c : Char) : Proper (comments offset c) := by
  unfold comments
  split_ifs
  · exact proper_singleton trivial
  · exact proper_nil trivial

/-- One character other than a tab completes proper tokens only. -/
theorem advance_proper
    (offset : Nat)
    {c : Char}
    (noTab : c ≠ '\t')
    {mode : Mode}
    (proper : mode.Proper) :
    Proper (advance offset c mode) := by
  cases mode with
  | between => exact opens_proper offset c
  | word start seen =>
      cases ends : endsWord c with
      | true =>
          simp only [advance, ends]
          exact (opens_proper offset c).cons (proper_word proper)
      | false =>
          simp only [advance, ends]
          exact proper_nil (proper_word_cons proper ends)
  | equals start count =>
      by_cases equal : c = '='
      · simp only [advance, equal]
        exact proper_nil (Nat.succ_pos count)
      · simp only [advance, equal]
        exact (opens_proper offset c).cons (proper_equals proper)
  | sharp start =>
      cases opens : opensComment c with
      | true =>
          simp only [advance, opens]
          exact comments_proper offset c
      | false =>
          simp only [advance, opens]
          exact proper_nil fun rest goesOn => .sharp opens goesOn
  | comment => exact comments_proper offset c
  | string start seen =>
      by_cases quote : c = '"'
      · simp only [advance, quote]
        exact proper_singleton (proper_string proper)
      · simp only [advance, quote]
        refine proper_nil ⟨?_, ?_⟩
        · exact List.not_mem_cons_of_ne_of_not_mem (Ne.symm quote) proper.1
        · exact List.not_mem_cons_of_ne_of_not_mem (Ne.symm noTab) proper.2

theorem finish_proper {mode : Mode} (proper : mode.Proper) :
    ∀ token ∈ finish mode, token.lexeme.Proper := by
  cases mode with
  | between | sharp | comment => simp [finish]
  | word start seen =>
      simpa [finish] using proper_word proper
  | equals start count =>
      simpa [finish] using proper_equals proper
  | string start seen => simp [finish, Lexeme.Proper]

/-- A text without tabs has proper tokens only. -/
theorem tokensFrom_proper
    (offset : Nat)
    {mode : Mode}
    (proper : mode.Proper)
    {chars : List Char}
    (tabless : '\t' ∉ chars) :
    ∀ token ∈ tokensFrom offset mode chars, token.lexeme.Proper := by
  induction chars generalizing offset mode with
  | nil => exact finish_proper proper
  | cons c rest inductionHypothesis =>
      rw [List.mem_cons, not_or] at tabless
      obtain ⟨now, next⟩ := advance_proper offset (Ne.symm tabless.1) proper
      intro token present
      rw [tokensFrom_cons, List.mem_append] at present
      rcases present with present | present
      · exact now token present
      · exact inductionHypothesis (offset + 1) next tabless.2 token present

end Scan

theorem tab_notMem_expandTabsFrom (column : Nat) (text : List Char) :
    '\t' ∉ Text.expandTabsFrom column text := by
  induction text generalizing column with
  | nil => exact List.not_mem_nil
  | cons c rest inductionHypothesis =>
      rw [Text.expandTabsFrom]
      split_ifs with tab ending
      · rw [List.mem_append, not_or]
        refine ⟨?_, inductionHypothesis _⟩
        intro present
        exact absurd (List.eq_of_mem_replicate present) (by decide)
      all_goals exact List.not_mem_cons_of_ne_of_not_mem (Ne.symm tab) (inductionHypothesis _)

/-- The tokens of every text are proper. -/
theorem tokens_proper (text : List Char) : ∀ token ∈ tokens text, token.lexeme.Proper :=
  Scan.tokensFrom_proper 0 Scan.proper_between (tab_notMem_expandTabsFrom 0 text)

end Source
end Concatenative
