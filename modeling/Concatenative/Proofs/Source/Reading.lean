import Concatenative.Proofs.Source.Derivation
import Concatenative.Proofs.Source.Grammar

/-!
# Reading

`parse` goes through the tokens of a text once and keeps a stack of open blocks. It accepts exactly
the texts whose tokens have a derivation, and gives the meaning of that derivation.
-/

namespace Concatenative
namespace Source

/-! ## A derivation is read -/

/-- Put words at the end of the current line in turn. -/
def Block.emitAll (block : Block) (words : List Word) : Block :=
  words.foldl (fun block word => block.emit word) block

/-- The block after a derivation of the rest of it has been read. -/
def Block.filled (block : Block) : BlockTree → Block
  | .last line => block.emitAll line.meaning
  | .more line _ later => (block.emitAll line.meaning).newline.filled later

@[simp] theorem Block.line_emitAll (block : Block) (words : List Word) :
    (block.emitAll words).line = block.line ++ words := by
  induction words generalizing block with
  | nil => simp [emitAll]
  | cons word rest inductionHypothesis =>
      have later := inductionHypothesis (block.emit word)
      simpa [emitAll] using later

@[simp] theorem Block.earlier_emitAll (block : Block) (words : List Word) :
    (block.emitAll words).earlier = block.earlier := by
  induction words generalizing block with
  | nil => rfl
  | cons word rest inductionHypothesis => exact inductionHypothesis (block.emit word)

/-- The words of a block are those of the derivation and those before. -/
theorem Block.words_filled
    {block : Block}
    (tree : BlockTree)
    (fresh : block.line = []) :
    (block.filled tree).words = tree.meaning ++ block.words := by
  match tree with
  | .last line => simp [filled, words, BlockTree.meaning, fresh]
  | .more line _ later =>
      have begun : (block.emitAll line.meaning).newline.line = [] := rfl
      rw [filled, words_filled later begun, words_newline]
      simp [words, BlockTree.meaning, fresh]

variable (text : List Char)

section Tokens

variable {text} {token : Token} {block : Block} {outer : List Block}

theorem place_separator
    (separator : Separator)
    (lexeme : token.lexeme = separator.lexeme) :
    place text (block :: outer) token = .ok (block.newline :: outer) := by
  cases separator <;> simp only [place, lexeme, Separator.lexeme] <;> rfl

theorem place_quoted
    {content : String}
    (lexeme : token.lexeme = .quoted content) :
    place text (block :: outer) token = .ok (block.emit (.str content) :: outer) := by
  simp only [place, lexeme]
  rfl

theorem place_bare
    {content : String}
    {value : Word}
    (lexeme : token.lexeme = .bare content)
    (good : readWord content.toList = .ok value) :
    place text (block :: outer) token = .ok (block.emit value :: outer) := by
  simp only [place, lexeme, good]
  rfl

theorem place_opening
    {blocks : List Block}
    (lexeme : token.lexeme = .opening) :
    place text blocks token = .ok ({ start := token.offset } :: blocks) := by
  simp only [place, lexeme]
  rfl

theorem place_closing
    {inner : Block}
    (lexeme : token.lexeme = .closing) :
    place text (inner :: block :: outer) token = .ok (block.emit (.list inner.words) :: outer) := by
  simp only [place, lexeme]
  rfl

theorem read_cons
    {blocks next : List Block}
    (placed : place text blocks token = .ok next)
    (rest : List Token) :
    (token :: rest).foldlM (place text) blocks = rest.foldlM (place text) next := by
  rw [List.foldlM_cons, placed]
  rfl

theorem read_append
    {front : List Token}
    {blocks next : List Block}
    (read : front.foldlM (place text) blocks = .ok next)
    (rest : List Token) :
    (front ++ rest).foldlM (place text) blocks = rest.foldlM (place text) next := by
  rw [List.foldlM_append, read]
  rfl

end Tokens

mutual

/-- The tokens of the rest of a block fill it. -/
theorem BlockTree.read
    (tree : BlockTree)
    {tokens : List Token}
    (derives : tokens.map Token.lexeme = tree.lexemes)
    (block : Block)
    (outer : List Block) :
    tokens.foldlM (place text) (block :: outer) = .ok (block.filled tree :: outer) := by
  match tree with
  | .last line => exact line.read derives block outer
  | .more line separator later =>
      obtain ⟨front, rest, rfl, lineDerives, restDerives⟩ := List.map_eq_append_iff.mp derives
      obtain ⟨token, behind, rfl, lexeme, laterDerives⟩ := List.map_eq_cons_iff.mp restDerives
      rw [read_append (line.read lineDerives block outer),
        read_cons (place_separator separator lexeme)]
      exact later.read laterDerives _ outer

/-- The tokens of the rest of a line are put into the innermost block. -/
theorem LineTree.read
    (line : LineTree)
    {tokens : List Token}
    (derives : tokens.map Token.lexeme = line.lexemes)
    (block : Block)
    (outer : List Block) :
    tokens.foldlM (place text) (block :: outer) = .ok (block.emitAll line.meaning :: outer) := by
  match line with
  | .done =>
      cases List.map_eq_nil_iff.mp derives
      rfl
  | .item first later =>
      obtain ⟨front, rest, rfl, firstDerives, laterDerives⟩ := List.map_eq_append_iff.mp derives
      rw [read_append (first.read firstDerives block outer)]
      exact later.read laterDerives (block.emit first.meaning) outer

/-- The tokens of an item put its word into the innermost block. -/
theorem ItemTree.read
    (item : ItemTree)
    {tokens : List Token}
    (derives : tokens.map Token.lexeme = item.lexemes)
    (block : Block)
    (outer : List Block) :
    tokens.foldlM (place text) (block :: outer) = .ok (block.emit item.meaning :: outer) := by
  match item with
  | .string content =>
      obtain ⟨token, rfl, lexeme⟩ := List.map_eq_singleton_iff.mp derives
      rw [read_cons (place_quoted lexeme)]
      rfl
  | .word content value good =>
      obtain ⟨token, rfl, lexeme⟩ := List.map_eq_singleton_iff.mp derives
      rw [read_cons (place_bare lexeme good)]
      rfl
  | .nested inner =>
      obtain ⟨brace, behind, rfl, opens, rest⟩ := List.map_eq_cons_iff.mp derives
      obtain ⟨within, ending, rfl, innerDerives, closes⟩ := List.map_eq_append_iff.mp rest
      obtain ⟨closer, rfl, lexeme⟩ := List.map_eq_singleton_iff.mp closes
      rw [read_cons (place_opening opens), read_append (inner.read innerDerives _ _),
        read_cons (place_closing lexeme), Block.words_filled inner rfl]
      simp [Block.words, Block.line, ItemTree.meaning, Pure.pure, Except.pure]

end

/-- The program of a text that has a derivation is the meaning of the derivation. -/
theorem BlockTree.parseChars_eq
    {tree : BlockTree}
    (derives : tree.Derives (tokens text)) :
    parseChars text = .ok tree.meaning := by
  have read := tree.read text derives { start := 0 } []
  rw [parseChars_eq_readTokens, readTokens, read]
  change Except.ok (Block.filled _ tree).words = _
  rw [Block.words_filled tree rfl]
  simp [Block.words, Block.line]

/-! ## What is read is derived -/

section Refusals

variable {text : List Char} {token : Token} {blocks : List Block}

theorem read_refused
    {error : ReadError}
    (refused : place text blocks token = .error error)
    (rest : List Token) :
    (token :: rest).foldlM (place text) blocks = .error error := by
  rw [List.foldlM_cons, refused]
  rfl

theorem place_closing_alone
    (block : Block)
    (lexeme : token.lexeme = .closing) :
    place text [block] token = .error (.flawed (.locate .missingOpenBrace text token.offset)) := by
  simp only [place, lexeme]
  rfl

theorem place_unclosed
    {content : String}
    (lexeme : token.lexeme = .unclosed content) :
    place text blocks token = .error (.flawed (.locate .missingEndQuote text token.offset)) := by
  simp only [place, lexeme]

theorem place_misread
    {content : String}
    {misreading : Misreading}
    (lexeme : token.lexeme = .bare content)
    (bad : readWord content.toList = .error misreading) :
    ∃ error, place text blocks token = .error error := by
  cases misreading <;> simp [place, lexeme, bad]

end Refusals

/-- If a text is read to its end with one block left, what was left of the open blocks has
derivations. -/
theorem pending_of_read
    {text : List Char}
    {tokens : List Token}
    {block final : Block}
    {outer : List Block}
    (read : tokens.foldlM (place text) (block :: outer) = .ok [final]) :
    ∃ trees, Pending (tokens.map Token.lexeme) trees ∧ trees.length = outer.length + 1 := by
  induction tokens generalizing block outer with
  | nil =>
      cases read
      exact ⟨_, .nothing, rfl⟩
  | cons token rest inductionHypothesis =>
      rw [List.map_cons]
      cases lexeme : token.lexeme with
      | newline =>
          rw [read_cons (place_separator .newline lexeme)] at read
          obtain ⟨trees, pending, count⟩ := inductionHypothesis read
          obtain ⟨tree, others, rfl⟩ := pending.exists_cons
          exact ⟨_, .newline pending, count⟩
      | semicolon =>
          rw [read_cons (place_separator .semicolon lexeme)] at read
          obtain ⟨trees, pending, count⟩ := inductionHypothesis read
          obtain ⟨tree, others, rfl⟩ := pending.exists_cons
          exact ⟨_, .semicolon pending, count⟩
      | opening =>
          rw [read_cons (place_opening lexeme)] at read
          obtain ⟨trees, pending, count⟩ := inductionHypothesis read
          obtain ⟨inner, around, rfl⟩ := pending.exists_cons
          obtain ⟨tree, others, rfl⟩ := List.exists_cons_of_length_eq_add_one (Nat.succ.inj count)
          exact ⟨_, .opening pending, Nat.succ.inj count⟩
      | closing =>
          cases outer with
          | nil =>
              rw [read_refused (place_closing_alone block lexeme)] at read
              cases read
          | cons around outer =>
              rw [read_cons (place_closing lexeme)] at read
              obtain ⟨trees, pending, count⟩ := inductionHypothesis read
              refine ⟨_, .closing pending, ?_⟩
              rw [List.length_cons, List.length_cons, count]
      | quoted content =>
          rw [read_cons (place_quoted lexeme)] at read
          obtain ⟨trees, pending, count⟩ := inductionHypothesis read
          obtain ⟨tree, others, rfl⟩ := pending.exists_cons
          exact ⟨_, .string content pending, count⟩
      | unclosed content =>
          rw [read_refused (place_unclosed lexeme)] at read
          cases read
      | bare content =>
          cases good : readWord content.toList with
          | ok value =>
              rw [read_cons (place_bare lexeme good)] at read
              obtain ⟨trees, pending, count⟩ := inductionHypothesis read
              obtain ⟨tree, others, rfl⟩ := pending.exists_cons
              exact ⟨_, .word content value good pending, count⟩
          | error misreading =>
              obtain ⟨error, refused⟩ := place_misread lexeme good
              rw [read_refused refused] at read
              cases read

/-- Tokens that are read to the end of a program in one block have a derivation. -/
theorem exists_derives_of_read
    {text : List Char}
    {tokens : List Token}
    {block : Block}
    {words : List Word}
    (read : (tokens.foldlM (place text) [block] >>= conclude text) = .ok words) :
    ∃ tree : BlockTree, tree.Derives tokens := by
  cases placed : tokens.foldlM (place text) [block] with
  | error error =>
      rw [placed] at read
      cases read
  | ok blocks =>
      rw [placed] at read
      match blocks, read with
      | [], read => cases read
      | last :: _ :: _, read => cases read
      | [final], _ =>
          obtain ⟨trees, pending, count⟩ := pending_of_read placed
          obtain ⟨tree, rfl⟩ := List.length_eq_one_iff.mp count
          exact ⟨tree, pending.spell_eq.symm⟩

/-- A text that gives a program has a derivation. -/
theorem exists_derives_of_parseChars
    {text : List Char}
    {words : List Word}
    (parsed : parseChars text = .ok words) :
    ∃ tree : BlockTree, tree.Derives (tokens text) := by
  rw [parseChars_eq_readTokens] at parsed
  exact exists_derives_of_read parsed

/-- A text is a program if and only if its tokens have a derivation. The words of the program are
then the meaning of the derivation, and there is no other. -/
theorem parse_eq_ok_iff_derives (text : String) :
    (∀ words,
      parse text = .ok words ↔
        ∃ tree : BlockTree, tree.Derives (tokens text.toList) ∧ tree.meaning = words) ∧
    ∀ first second : BlockTree,
      first.Derives (tokens text.toList) → second.Derives (tokens text.toList) →
      first = second := by
  refine ⟨fun words => ⟨?_, ?_⟩, ?_⟩
  · intro parsed
    obtain ⟨tree, derives⟩ := exists_derives_of_parseChars parsed
    have meaning := BlockTree.parseChars_eq text.toList derives
    exact ⟨tree, derives, Except.ok.inj (meaning.symm.trans parsed)⟩
  · rintro ⟨tree, derives, rfl⟩
    exact BlockTree.parseChars_eq text.toList derives
  · intro first second firstDerives secondDerives
    exact BlockTree.lexemes_injective (firstDerives.symm.trans secondDerives)

end Source
end Concatenative
