import Concatenative.Proofs.Source.Reading
import Concatenative.Proofs.Source.WellFormed
import Mathlib.Data.List.Forall2

/-!
# The round trip

A sequence of words is the program of some text if and only if its words are well-formed, and it is
then the program of its own written form.
-/

namespace Concatenative
namespace Source

/-! ## Spelling -/

/-- The characters are scanned into tokens of the lexemes, provided that a blank or nothing follows
them. -/
structure Spells (chars : List Char) (lexemes : List Lexeme) : Prop where
  /-- The expansion of tabs leaves the characters alone. -/
  tabless : '\t' ∉ chars
  /-- The scanner is between two tokens before the characters and again after them. -/
  scanned : ∀ offset rest, AtBlank rest →
    ∃ tokens,
      tokens.map Token.lexeme = lexemes ∧
        Scan.tokensFrom offset .between (chars ++ rest) =
          tokens ++ Scan.tokensFrom (offset + chars.length) .between rest

/-- What is scanned off texts with a separator between neighbours is what is scanned off each of
them, with something between neighbours. -/
def Joins (separator : List Char) (between : List Lexeme) : Prop :=
  ∀ {first second : List Char} {before behind : List Lexeme},
    Spells first before → Spells second behind →
      Spells (first ++ (separator ++ second)) (before ++ (between ++ behind))

/-- A blank stands between two texts; it may be a token. -/
theorem joins_of_isBlank
    {c : Char}
    {between : List Lexeme}
    (blank : Text.isBlank c = true)
    (noTab : c ≠ '\t')
    (scanned : ∀ offset rest,
      ∃ tokens,
        tokens.map Token.lexeme = between ∧
          Scan.tokensFrom offset .between (c :: rest) =
            tokens ++ Scan.tokensFrom (offset + 1) .between rest) :
    Joins [c] between := by
  intro first second before behind front back
  refine ⟨?_, ?_⟩
  · simp [front.tabless, back.tabless, Ne.symm noTab]
  · intro offset rest ends
    have atBlank : AtBlank (c :: (second ++ rest)) := by
      rintro _ ⟨⟩
      exact blank
    obtain ⟨early, earlyLexemes, earlyScan⟩ := front.scanned offset _ atBlank
    obtain ⟨middle, middleLexemes, middleScan⟩ :=
      scanned (offset + first.length) (second ++ rest)
    obtain ⟨late, lateLexemes, lateScan⟩ :=
      back.scanned (offset + first.length + 1) rest ends
    refine ⟨early ++ (middle ++ late), ?_, ?_⟩
    · rw [List.map_append, List.map_append, earlyLexemes, middleLexemes, lateLexemes]
    · rw [List.append_assoc, List.singleton_append, List.cons_append, earlyScan, middleScan,
        lateScan, List.append_assoc, List.append_assoc, List.length_append, List.length_cons,
        Nat.add_comm second.length, Nat.add_assoc, Nat.add_assoc]

theorem joins_space : Joins [' '] [] :=
  joins_of_isBlank (by decide) (by decide) fun _ _ => ⟨[], rfl, rfl⟩

theorem joins_newline : Joins ['\n'] [.newline] :=
  joins_of_isBlank (by decide) (by decide) fun offset _ => ⟨[⟨.newline, offset⟩], rfl, rfl⟩

/-- Lexemes whose characters stand apart are scanned apart. -/
theorem Spells.spaced
    {first second : List Char}
    {before behind : List Lexeme}
    (front : Spells first before)
    (back : Spells second behind) :
    Spells (first ++ ' ' :: second) (before ++ behind) :=
  joins_space front back

theorem spells_nil : Spells [] [] :=
  ⟨List.not_mem_nil, fun _ _ _ => ⟨[], rfl, rfl⟩⟩

theorem Joins.intercalate
    {separator : List Char}
    {between : List Lexeme}
    {texts : List (List Char)}
    {parts : List (List Lexeme)}
    (joins : Joins separator between)
    (each : List.Forall₂ Spells texts parts) :
    Spells (separator.intercalate texts) (between.intercalate parts) := by
  induction each with
  | nil => exact spells_nil
  | cons first others inductionHypothesis =>
      cases others with
      | nil =>
          rw [List.intercalate_singleton, List.intercalate_singleton]
          exact first
      | cons =>
          rw [List.intercalate_cons_cons, List.intercalate_cons_cons, List.append_assoc,
            List.append_assoc]
          exact joins first inductionHypothesis

theorem spells_opening : Spells ['\x7b'] [.opening] :=
  ⟨by decide, fun offset _ _ => ⟨[⟨.opening, offset⟩], rfl, rfl⟩⟩

theorem spells_closing : Spells ['\x7d'] [.closing] :=
  ⟨by decide, fun offset _ _ => ⟨[⟨.closing, offset⟩], rfl, rfl⟩⟩

theorem spells_braces : Spells ['\x7b', '\x7d'] [.opening, .closing] :=
  ⟨by decide, fun offset _ _ => ⟨[⟨.opening, offset⟩, ⟨.closing, offset + 1⟩], rfl, rfl⟩⟩

theorem spells_semicolon : Spells [';'] [.semicolon] :=
  ⟨by decide, fun offset _ _ => ⟨[⟨.semicolon, offset⟩], rfl, rfl⟩⟩

theorem Plain.tabless {chars : List Char} (spelled : Plain chars) : '\t' ∉ chars := by
  cases spelled with
  | equals count =>
      intro present
      exact absurd (List.eq_of_mem_replicate present) (by decide)
  | word begins goesOn =>
      rw [List.mem_cons, not_or]
      refine ⟨(ne_of_endsWord begins.1 (by decide)).symm, ?_⟩
      intro present
      exact absurd (goesOn _ present) (by decide)

theorem Bare.tabless {chars : List Char} (bare : Bare chars) : '\t' ∉ chars := by
  cases bare with
  | plain spelled => exact spelled.tabless
  | sharp noComment goesOn =>
      rw [List.mem_cons, List.mem_cons, not_or, not_or]
      refine ⟨by decide, (ne_of_endsWord (endsWord_of_opensComment noComment) (by decide)).symm, ?_⟩
      intro present
      exact absurd (goesOn _ present) (by decide)

theorem spells_bare
    {text : String}
    (bare : Bare text.toList) :
    Spells text.toList [.bare text] := by
  refine ⟨bare.tabless, ?_⟩
  intro offset rest ends
  refine ⟨[⟨.bare text, offset⟩], rfl, ?_⟩
  rw [Scan.tokensFrom_bare offset bare ends, String.ofList_toList]
  rfl

theorem spells_quoted
    {text : String}
    (quoteless : '"' ∉ text.toList)
    (tabless : '\t' ∉ text.toList) :
    Spells ('"' :: (text.toList ++ ['"'])) [.quoted text] := by
  refine ⟨by simp [tabless], ?_⟩
  intro offset rest _
  refine ⟨[⟨.quoted text, offset⟩], rfl, ?_⟩
  rw [List.cons_append, List.append_assoc, List.singleton_append,
    Scan.tokensFrom_quoted offset quoteless, String.ofList_toList]
  simp

/-- The tokens of a text that spells lexemes have these lexemes. -/
theorem Spells.tokens_eq
    {chars : List Char}
    {lexemes : List Lexeme}
    (spells : Spells chars lexemes) :
    (tokens chars).map Token.lexeme = lexemes := by
  obtain ⟨found, same, scan⟩ := spells.scanned 0 [] atBlank_nil
  rw [List.append_nil, Scan.tokensFrom_nil, Scan.finish, List.append_nil] at scan
  rw [tokens, Text.expandTabs, Text.expandTabsFrom_eq_self 0 spells.tabless, scan, same]

/-! ## Words -/

mutual

/-- The lexemes of the written form of a word without dicts. -/
def lexemesOf : Word → List Lexeme
  | .str text => [.quoted text]
  | .list items => .opening :: (lexemesOfEach items ++ [.closing])
  | word => [.bare word.display]
termination_by structural word => word

/-- The lexemes of the written forms of words. -/
def lexemesOfEach : List Word → List Lexeme
  | [] => []
  | item :: rest => lexemesOf item ++ lexemesOfEach rest
termination_by structural items => items

end

theorem lexemesOfEach_eq_flatten (words : List Word) :
    lexemesOfEach words = (words.map lexemesOf).flatten := by
  induction words with
  | nil => rfl
  | cons word rest inductionHypothesis =>
      rw [lexemesOfEach, inductionHypothesis, List.map_cons, List.flatten_cons]

theorem toList_displayAll (words : List Word) :
    (Word.displayAll words).toList =
      [' '].intercalate (words.map fun word => word.display.toList) := by
  rw [Word.displayAll, Word.join, String.toList_intercalate, List.map_map]
  rfl

theorem intercalate_nil_eq_flatten {α : Type} (parts : List (List α)) :
    [].intercalate parts = parts.flatten := by
  induction parts with
  | nil => rfl
  | cons first rest inductionHypothesis =>
      cases rest with
      | nil => rw [List.intercalate_singleton, List.flatten_singleton]
      | cons second others =>
          rw [List.intercalate_cons_cons, inductionHypothesis, List.append_nil]
          rfl

/-- Words are scanned apart if they are written with spaces between them. -/
theorem spells_displayAll
    {words : List Word}
    (each : ∀ word ∈ words, Spells word.display.toList (lexemesOf word)) :
    Spells (Word.displayAll words).toList (lexemesOfEach words) := by
  rw [toList_displayAll, lexemesOfEach_eq_flatten, ← intercalate_nil_eq_flatten]
  refine joins_space.intercalate ?_
  rwa [List.forall₂_map_left_iff, List.forall₂_map_right_iff, List.forall₂_same]

theorem toList_braced
    {separator : String}
    {written : List String}
    (present : written ≠ []) :
    (Word.braced separator written).toList =
      ['\x7b'] ++ ' ' :: ((separator.intercalate written).toList ++ ' ' :: ['\x7d']) := by
  simp [Word.braced, present]

theorem toList_display_list {items : List Word} (present : items ≠ []) :
    (Word.display (.list items)).toList =
      ['\x7b'] ++ ' ' :: ((Word.displayAll items).toList ++ ' ' :: ['\x7d']) := by
  rw [Word.display, Word.displayEach_eq_map]
  exact toList_braced (by simpa using present)

/-- The written form of a well-formed word is scanned into the lexemes of the word. -/
theorem spells_display
    {word : Word}
    (wellFormed : word.WellFormed) :
    Spells word.display.toList (lexemesOf word) := by
  induction wellFormed with
  | atom spelled noInteger => exact spells_bare (readsBack_atom spelled noInteger).1
  | int inRange => exact spells_bare (readsBack_int inRange).1
  | hex inRange => exact spells_bare (readsBack_hex inRange).1
  | @str text quoteless tabless =>
      have characters : (Word.display (.str text)).toList = '"' :: (text.toList ++ ['"']) := by
        simp [Word.display]
      rw [characters]
      exact spells_quoted quoteless tabless
  | @list items _ inductionHypothesis =>
      by_cases present : items = []
      · rw [present]
        exact spells_braces
      · rw [toList_display_list present]
        exact spells_opening.spaced ((spells_displayAll inductionHypothesis).spaced spells_closing)

/-! ## Derivations of words -/

theorem exists_item_of_readsBack
    {word : Word}
    (readsBack : ReadsBack word) :
    ∃ item : ItemTree, item.meaning = word ∧ item.lexemes = [.bare word.display] :=
  ⟨.word word.display word readsBack.2, rfl, rfl⟩

theorem exists_line_of_items
    {words : List Word}
    (each : ∀ word ∈ words,
      ∃ item : ItemTree, item.meaning = word ∧ item.lexemes = lexemesOf word) :
    ∃ line : LineTree, line.meaning = words ∧ line.lexemes = lexemesOfEach words := by
  induction words with
  | nil => exact ⟨.done, rfl, rfl⟩
  | cons word rest inductionHypothesis =>
      rw [List.forall_mem_cons] at each
      obtain ⟨item, meaning, lexemes⟩ := each.1
      obtain ⟨line, lineMeaning, lineLexemes⟩ := inductionHypothesis each.2
      refine ⟨.item item line, ?_, ?_⟩
      · rw [LineTree.meaning, meaning, lineMeaning]
      · rw [LineTree.lexemes, lexemes, lineLexemes, lexemesOfEach]

/-- The lexemes of a well-formed word are derived as the word. -/
theorem exists_item
    {word : Word}
    (wellFormed : word.WellFormed) :
    ∃ item : ItemTree, item.meaning = word ∧ item.lexemes = lexemesOf word := by
  induction wellFormed with
  | atom spelled noInteger => exact exists_item_of_readsBack (readsBack_atom spelled noInteger)
  | int inRange => exact exists_item_of_readsBack (readsBack_int inRange)
  | hex inRange => exact exists_item_of_readsBack (readsBack_hex inRange)
  | @str text => exact ⟨.string text, rfl, rfl⟩
  | list _ inductionHypothesis =>
      obtain ⟨line, meaning, lexemes⟩ := exists_line_of_items inductionHypothesis
      refine ⟨.nested (.last line), ?_, ?_⟩
      · rw [ItemTree.meaning, BlockTree.meaning, meaning]
      · rw [ItemTree.lexemes, BlockTree.lexemes, lexemes, lexemesOf]

/-- The words of a sequence, written with spaces between them, spell a derivation of a line. -/
theorem exists_line
    {words : List Word}
    (wellFormed : ∀ word ∈ words, word.WellFormed) :
    ∃ line : LineTree,
      line.meaning = words ∧ Spells (Word.displayAll words).toList line.lexemes := by
  obtain ⟨line, meaning, lexemes⟩ :=
    exists_line_of_items fun word present => exists_item (wellFormed word present)
  refine ⟨line, meaning, ?_⟩
  rw [lexemes]
  exact spells_displayAll fun word present => spells_display (wellFormed word present)

theorem parse_displayAll
    {words : List Word}
    (wellFormed : ∀ word ∈ words, word.WellFormed) :
    parse (Word.displayAll words) = .ok words := by
  obtain ⟨line, meaning, spells⟩ := exists_line wellFormed
  have derives : (BlockTree.last line).Derives (tokens (Word.displayAll words).toList) :=
    spells.tokens_eq
  rw [parse, BlockTree.parseChars_eq _ derives, BlockTree.meaning, meaning]

/-! ## Reading -/

mutual

/-- A derivation from proper lexemes has well-formed words. -/
theorem BlockTree.wellFormed
    (tree : BlockTree)
    (proper : ∀ lexeme ∈ tree.lexemes, lexeme.Proper) :
    ∀ word ∈ tree.meaning, word.WellFormed := by
  match tree with
  | .last line => exact line.wellFormed proper
  | .more line separator later =>
      rw [BlockTree.lexemes, List.forall_mem_append, List.forall_mem_cons] at proper
      rw [BlockTree.meaning, List.forall_mem_append]
      exact ⟨later.wellFormed proper.2.2, line.wellFormed proper.1⟩

theorem LineTree.wellFormed
    (line : LineTree)
    (proper : ∀ lexeme ∈ line.lexemes, lexeme.Proper) :
    ∀ word ∈ line.meaning, word.WellFormed := by
  match line with
  | .done => exact fun _ present => absurd present List.not_mem_nil
  | .item first later =>
      rw [LineTree.lexemes, List.forall_mem_append] at proper
      rw [LineTree.meaning, List.forall_mem_cons]
      exact ⟨first.wellFormed proper.1, later.wellFormed proper.2⟩

theorem ItemTree.wellFormed
    (item : ItemTree)
    (proper : ∀ lexeme ∈ item.lexemes, lexeme.Proper) :
    item.meaning.WellFormed := by
  match item with
  | .string text =>
      rw [ItemTree.lexemes, List.forall_mem_singleton] at proper
      exact .str proper.1 proper.2
  | .word text value good =>
      rw [ItemTree.lexemes, List.forall_mem_singleton] at proper
      exact wellFormed_of_readWord proper good
  | .nested block =>
      rw [ItemTree.lexemes, List.forall_mem_cons, List.forall_mem_append] at proper
      exact .list (block.wellFormed proper.2.1)

end

theorem wellFormed_of_parse
    {text : String}
    {words : List Word}
    (parsed : parse text = .ok words) :
    ∀ word ∈ words, word.WellFormed := by
  obtain ⟨tree, derives⟩ := exists_derives_of_parseChars parsed
  have meaning := BlockTree.parseChars_eq text.toList derives
  cases meaning.symm.trans parsed
  refine tree.wellFormed ?_
  rw [← derives]
  intro lexeme present
  obtain ⟨token, found, rfl⟩ := List.mem_map.mp present
  exact tokens_proper text.toList token found

/-- The word is one of those that some text denotes. -/
def Denoted (word : Word) : Prop :=
  ∃ text words, parse text = .ok words ∧ word ∈ words

theorem Denoted.wellFormed {word : Word} (denoted : Denoted word) : word.WellFormed := by
  obtain ⟨text, words, parsed, present⟩ := denoted
  exact wellFormed_of_parse parsed word present

/-- A sequence of words is the program of some text if and only if its words are well-formed, which
is when it is the program of its written form. Writing the program of a text and reading it again
gives the same program. -/
theorem exists_parse_iff_wellFormed (words : List Word) :
    ((∃ text, parse text = .ok words) ↔ ∀ word ∈ words, word.WellFormed) ∧
    (parse (Word.displayAll words) = .ok words ↔ ∀ word ∈ words, word.WellFormed) ∧
    ∀ text, parse text = .ok words → parse (Word.displayAll words) = parse text := by
  refine ⟨⟨?_, ?_⟩, ⟨wellFormed_of_parse, parse_displayAll⟩, ?_⟩
  · rintro ⟨text, parsed⟩
    exact wellFormed_of_parse parsed
  · intro wellFormed
    exact ⟨Word.displayAll words, parse_displayAll wellFormed⟩
  · intro text parsed
    rw [parsed]
    exact parse_displayAll (wellFormed_of_parse parsed)

/-- Lines and the spelling of numbers do not come back, and the program does. -/
theorem parse_displayAll_of_lines :
    parse "b\t\x7b #0FF ; == \x7d\n+5 # five\n\"x\ny\" a\"" =
        .ok [.str "x\ny", .atom "a\"", .int 5, .atom "b", .list [.atom "==", .hex 255]] ∧
      parse "\"x\ny\" a\" 5 b \x7b == #ff \x7d" =
        .ok [.str "x\ny", .atom "a\"", .int 5, .atom "b", .list [.atom "==", .hex 255]] := by
  have parsed :
      parse "b\t\x7b #0FF ; == \x7d\n+5 # five\n\"x\ny\" a\"" =
        .ok [.str "x\ny", .atom "a\"", .int 5, .atom "b", .list [.atom "==", .hex 255]] :=
    parse_of_readTokens rfl
  exact ⟨parsed, ((exists_parse_iff_wellFormed _).2.2 _ parsed).trans parsed⟩

end Source
end Concatenative
