import Concatenative.Proofs.Source.Reading
import Mathlib.Tactic.SplitIfs

/-!
# Texts that are joined by a newline

A newline ends whatever is being scanned but a string, and tab stops are counted anew after it. So
the tokens of two texts that are joined by a newline are those of the first, the newline and those
of the second, and if both texts are programs, the joined text is the program that runs the first
one before the second.
-/

namespace Concatenative

/-- Tabs after a newline do not depend on what is before it. -/
theorem Text.expandTabsFrom_append_newline (column : Nat) (first second : List Char) :
    expandTabsFrom column (first ++ '\n' :: second) =
      expandTabsFrom column first ++ '\n' :: expandTabsFrom 0 second := by
  induction first generalizing column with
  | nil => simp [expandTabsFrom]
  | cons c rest inductionHypothesis =>
      simp only [List.cons_append, expandTabsFrom]
      split_ifs with tab ending
      · rw [inductionHypothesis, List.append_assoc]
      · rw [inductionHypothesis, List.cons_append]
      · rw [inductionHypothesis, List.cons_append]

namespace Source

/-! ## Scanning elsewhere in a text -/

/-- The token, a distance farther on in a text. -/
def Token.moved (distance : Nat) (token : Token) : Token :=
  { token with offset := token.offset + distance }

namespace Scan

/-- What is being scanned, a distance farther on in a text. -/
def Mode.moved (distance : Nat) : Mode → Mode
  | .between => .between
  | .word start seen => .word (start + distance) seen
  | .equals start count => .equals (start + distance) count
  | .sharp start => .sharp (start + distance)
  | .comment => .comment
  | .string start seen => .string (start + distance) seen

/-- The result of scanning a character, a distance farther on in a text. -/
def movedBoth (distance : Nat) (scanned : List Token × Mode) : List Token × Mode :=
  (scanned.1.map (Token.moved distance), scanned.2.moved distance)

variable (distance offset : Nat)

theorem opens_moved (c : Char) :
    opens (offset + distance) c = movedBoth distance (opens offset c) := by
  unfold opens
  split_ifs <;> rfl

theorem comments_moved (c : Char) :
    comments (offset + distance) c = movedBoth distance (comments offset c) := by
  unfold comments
  split_ifs <;> rfl

theorem advance_moved (c : Char) (mode : Mode) :
    advance (offset + distance) c (mode.moved distance) =
      movedBoth distance (advance offset c mode) := by
  cases mode with
  | between => exact opens_moved distance offset c
  | comment => exact comments_moved distance offset c
  | word start seen =>
      simp only [Mode.moved, advance, opens_moved]
      split_ifs <;> rfl
  | equals start count =>
      simp only [Mode.moved, advance, opens_moved]
      split_ifs <;> rfl
  | sharp start =>
      simp only [Mode.moved, advance, comments_moved]
      split_ifs <;> rfl
  | string start seen =>
      simp only [Mode.moved, advance]
      split_ifs <;> rfl

/-- Characters farther on in a text have the same tokens farther on. -/
theorem tokensFrom_moved (mode : Mode) (chars : List Char) :
    tokensFrom (offset + distance) (mode.moved distance) chars =
      (tokensFrom offset mode chars).map (Token.moved distance) := by
  induction chars generalizing offset mode with
  | nil => cases mode <;> rfl
  | cons c rest inductionHypothesis =>
      rw [tokensFrom_cons, tokensFrom_cons, advance_moved, movedBoth, List.map_append,
        Nat.add_right_comm, inductionHypothesis]

/-! ## Scanning past a newline -/

/-- A newline is a token of its own, and nothing is being scanned after it, unless it is a character
of a string. -/
theorem tokensFrom_append_newline
    {mode : Mode}
    {first : List Char}
    (closed : ∀ token ∈ tokensFrom offset mode first, ∀ text, token.lexeme ≠ .unclosed text)
    (second : List Char) :
    tokensFrom offset mode (first ++ '\n' :: second) =
      tokensFrom offset mode first ++ ⟨.newline, offset + first.length⟩ ::
        tokensFrom (offset + first.length + 1) .between second := by
  induction first generalizing offset mode with
  | nil =>
      cases mode with
      | between | word | equals | sharp | comment => rfl
      | string start seen => exact absurd rfl (closed _ List.mem_cons_self _)
  | cons c rest inductionHypothesis =>
      rw [tokensFrom_cons] at closed
      have later := inductionHypothesis (offset + 1) fun token present =>
        closed token (List.mem_append_right _ present)
      rw [List.cons_append, tokensFrom_cons, tokensFrom_cons, later, List.append_assoc,
        List.length_cons, Nat.add_assoc offset 1, Nat.add_comm 1]

end Scan

/-- The tokens of texts that are joined by a newline. -/
theorem tokens_append_newline
    {first : List Char}
    (closed : ∀ token ∈ tokens first, ∀ text, token.lexeme ≠ .unclosed text)
    (second : List Char) :
    tokens (first ++ '\n' :: second) =
      tokens first ++ ⟨.newline, (Text.expandTabs first).length⟩ ::
        (tokens second).map (Token.moved ((Text.expandTabs first).length + 1)) := by
  have moved := Scan.tokensFrom_moved ((Text.expandTabs first).length + 1) 0 .between
    (Text.expandTabs second)
  have expanded : Text.expandTabs (first ++ '\n' :: second) =
      Text.expandTabs first ++ '\n' :: Text.expandTabs second :=
    Text.expandTabsFrom_append_newline 0 first second
  rw [tokens, expanded, Scan.tokensFrom_append_newline 0 closed]
  rw [Nat.zero_add] at moved ⊢
  exact congrArg (tokens first ++ _ :: ·) moved

/-! ## Derivations one after the other -/

/-- No derivation spells a string that nothing closes. -/
theorem Pending.closed
    {lexemes : List Lexeme}
    {blocks : List BlockTree}
    (pending : Pending lexemes blocks)
    (text : String) :
    .unclosed text ∉ lexemes := by
  induction pending with
  | nothing => exact List.not_mem_nil
  | newline _ inductionHypothesis | semicolon _ inductionHypothesis
  | string _ _ inductionHypothesis | word _ _ _ _ inductionHypothesis
  | opening _ inductionHypothesis | closing _ inductionHypothesis =>
      exact List.not_mem_cons_of_ne_of_not_mem (by simp) inductionHypothesis

/-- A block, a newline and another block. -/
def BlockTree.followedBy (first second : BlockTree) : BlockTree :=
  match first with
  | .last line => .more line .newline second
  | .more line separator later => .more line separator (later.followedBy second)

theorem BlockTree.lexemes_followedBy (first second : BlockTree) :
    (first.followedBy second).lexemes = first.lexemes ++ .newline :: second.lexemes := by
  match first with
  | .last line => rfl
  | .more line separator later =>
      simp only [followedBy, lexemes, lexemes_followedBy later second, List.append_assoc,
        List.cons_append]

theorem BlockTree.meaning_followedBy (first second : BlockTree) :
    (first.followedBy second).meaning = second.meaning ++ first.meaning := by
  match first with
  | .last line => rfl
  | .more line separator later =>
      simp only [followedBy, meaning, meaning_followedBy later second, List.append_assoc]

/-- The tokens of a program, a newline and another text: those of the program, the newline, and
those of the other text alone, farther on. -/
theorem tokens_behind_program
    {first : String}
    {tree : BlockTree}
    (derives : tree.Derives (tokens first.toList))
    (second : String) :
    ∃ offset distance,
      tokens (first ++ "\n" ++ second).toList =
        tokens first.toList ++ ⟨.newline, offset⟩ ::
          (tokens second.toList).map (Token.moved distance) := by
  have closed : ∀ token ∈ tokens first.toList, ∀ text, token.lexeme ≠ .unclosed text := by
    intro token present text unclosed
    have member : .unclosed text ∈ tree.lexemes := by
      rw [← derives, ← unclosed]
      exact List.mem_map_of_mem present
    exact (tree.pending .nothing).closed text (List.mem_append_left _ member)
  have characters : (first ++ "\n" ++ second).toList = first.toList ++ '\n' :: second.toList := by
    simp
  rw [characters]
  exact ⟨_, _, tokens_append_newline closed second.toList⟩

/-- What a token is does not depend on where it is. -/
theorem BlockTree.derives_moved
    {tree : BlockTree}
    {tokens : List Token}
    (distance : Nat) :
    tree.Derives (tokens.map (Token.moved distance)) ↔ tree.Derives tokens := by
  rw [Derives, Derives, List.map_map]
  rfl

/-- Two programs that are joined by a newline are one program, of which the words of the second are
below those of the first. -/
theorem parse_append_newline
    {first second : String}
    {firstWords secondWords : List Word}
    (firstParsed : parse first = .ok firstWords)
    (secondParsed : parse second = .ok secondWords) :
    parse (first ++ "\n" ++ second) = .ok (secondWords ++ firstWords) := by
  obtain ⟨firstTree, firstDerives⟩ := exists_derives_of_parseChars firstParsed
  obtain ⟨secondTree, secondDerives⟩ := exists_derives_of_parseChars secondParsed
  cases (BlockTree.parseChars_eq _ firstDerives).symm.trans firstParsed
  cases (BlockTree.parseChars_eq _ secondDerives).symm.trans secondParsed
  obtain ⟨offset, distance, joined⟩ := tokens_behind_program firstDerives second
  have derives : (firstTree.followedBy secondTree).Derives
      (tokens (first ++ "\n" ++ second).toList) := by
    have moved := (BlockTree.derives_moved distance).mpr secondDerives
    rw [BlockTree.Derives] at firstDerives moved ⊢
    rw [joined, List.map_append, List.map_cons, firstDerives, moved, BlockTree.lexemes_followedBy]
  rw [← BlockTree.meaning_followedBy]
  exact BlockTree.parseChars_eq _ derives

/-- A program cannot make up for what is wrong with the text behind it. -/
theorem exists_parse_behind_program
    {first second : String}
    {firstWords words : List Word}
    (firstParsed : parse first = .ok firstWords)
    (joinedParsed : parse (first ++ "\n" ++ second) = .ok words) :
    ∃ secondWords, parse second = .ok secondWords := by
  obtain ⟨firstTree, firstDerives⟩ := exists_derives_of_parseChars firstParsed
  obtain ⟨offset, distance, joined⟩ := tokens_behind_program firstDerives second
  -- Behind the program and the newline one block is open, as at the beginning of a text.
  rw [parse_eq_readTokens, readTokens, joined, read_append (firstTree.read _ firstDerives _ []),
    read_cons (place_separator .newline rfl)] at joinedParsed
  obtain ⟨tree, derives⟩ := exists_derives_of_read joinedParsed
  exact ⟨_, BlockTree.parseChars_eq _ ((BlockTree.derives_moved distance).mp derives)⟩

/-- Reading turns texts that are joined by a newline into words that are joined in the other order.
Behind a program and a newline, a text is a program exactly if it is one by itself, whatever the
first one ends in and wherever their tabs are. Its words are then put below those of the first. -/
theorem parse_behind_program_iff
    {first : String}
    {firstWords : List Word}
    (firstParsed : parse first = .ok firstWords)
    (second : String)
    (words : List Word) :
    parse (first ++ "\n" ++ second) = .ok words ↔
      ∃ secondWords, parse second = .ok secondWords ∧ words = secondWords ++ firstWords := by
  constructor
  · intro joined
    obtain ⟨secondWords, secondParsed⟩ := exists_parse_behind_program firstParsed joined
    have whole := parse_append_newline firstParsed secondParsed
    exact ⟨secondWords, secondParsed, Except.ok.inj (joined.symm.trans whole)⟩
  · rintro ⟨secondWords, secondParsed, rfl⟩
    exact parse_append_newline firstParsed secondParsed

/-- The first text ends in a lone number sign behind a tab, and the second one in a comment with a
quote. -/
theorem parse_behind_program_iff_commented :
    parse "a\t\"x\ty\" ==\n\t#" = .ok [.atom "a", .str "x      y", .atom "=="] ∧
      parse "\t\x7b 1 ;\t\"\x7d\" \x7d\n# \"" = .ok [.list [.str "\x7d", .int 1]] ∧
      parse ("a\t\"x\ty\" ==\n\t#" ++ "\n" ++ "\t\x7b 1 ;\t\"\x7d\" \x7d\n# \"") =
        .ok ([.list [.str "\x7d", .int 1]] ++ [.atom "a", .str "x      y", .atom "=="]) := by
  have firstParsed : parse "a\t\"x\ty\" ==\n\t#" =
      .ok [.atom "a", .str "x      y", .atom "=="] := parse_of_readTokens rfl
  have secondParsed : parse "\t\x7b 1 ;\t\"\x7d\" \x7d\n# \"" =
      .ok [.list [.str "\x7d", .int 1]] := parse_of_readTokens rfl
  have joined := parse_behind_program_iff firstParsed "\t\x7b 1 ;\t\"\x7d\" \x7d\n# \""
  exact ⟨firstParsed, secondParsed, (joined _).mpr ⟨_, secondParsed, rfl⟩⟩

end Source
end Concatenative
