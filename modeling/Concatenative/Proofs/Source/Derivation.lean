import Concatenative.Source.Program

/-!
# Derivations

The grammar of programs over lexemes. A block is a sequence of lines with a separator between
neighbours, a line is a sequence of items, and an item is a string, a bare word that can be read, or
a block between braces. The trees of this module are the derivations of that grammar: `lexemes`
spells a tree out, and `meaning` gives the words it stands for.

No sequence of lexemes has two derivations. The proof reads a program from its end, where each
opening brace finds the derivation of its block complete.
-/

namespace Concatenative
namespace Source

/-! ## Trees -/

/-- What stands between two lines. -/
inductive Separator where
  /-- The end of a line of text. -/
  | newline
  /-- A semicolon. -/
  | semicolon
  deriving DecidableEq

/-- The lexeme of a separator. -/
def Separator.lexeme : Separator → Lexeme
  | .newline => .newline
  | .semicolon => .semicolon

mutual

/-- A derivation of a block. -/
inductive BlockTree where
  /-- The last line of the block. -/
  | last (line : LineTree)
  /-- A line, a separator and the lines after it. -/
  | more (line : LineTree) (separator : Separator) (later : BlockTree)

/-- A derivation of a line. -/
inductive LineTree where
  /-- The line has no more items. -/
  | done
  /-- An item and those after it. -/
  | item (first : ItemTree) (later : LineTree)

/-- A derivation of an item. -/
inductive ItemTree where
  /-- A string. -/
  | string (text : String)
  /-- A bare word that can be read. -/
  | word (text : String) (value : Word) (good : readWord text.toList = .ok value)
  /-- A block between braces. -/
  | nested (block : BlockTree)

end

mutual

/-- The lexemes of a block. -/
def BlockTree.lexemes : BlockTree → List Lexeme
  | .last line => line.lexemes
  | .more line separator later => line.lexemes ++ separator.lexeme :: later.lexemes

/-- The lexemes of a line. -/
def LineTree.lexemes : LineTree → List Lexeme
  | .done => []
  | .item first later => first.lexemes ++ later.lexemes

/-- The lexemes of an item. -/
def ItemTree.lexemes : ItemTree → List Lexeme
  | .string text => [.quoted text]
  | .word text _ _ => [.bare text]
  | .nested block => .opening :: (block.lexemes ++ [.closing])

end

mutual

/-- The words of a block: those of its lines, last line first. -/
def BlockTree.meaning : BlockTree → List Word
  | .last line => line.meaning
  | .more line _ later => later.meaning ++ line.meaning

/-- The words of a line, in the order of its items. -/
def LineTree.meaning : LineTree → List Word
  | .done => []
  | .item first later => first.meaning :: later.meaning

/-- The word of an item. -/
def ItemTree.meaning : ItemTree → Word
  | .string text => .str text
  | .word _ value _ => value
  | .nested block => .list block.meaning

end

/-- The tree is a derivation of the tokens. -/
def BlockTree.Derives (tree : BlockTree) (tokens : List Token) : Prop :=
  tokens.map Token.lexeme = tree.lexemes

/-! ## Reading from the end -/

/-- The block with one more item at the front of its first line. -/
def BlockTree.prepend (first : ItemTree) : BlockTree → BlockTree
  | .last line => .last (.item first line)
  | .more line separator later => .more (.item first line) separator later

/-- The derivations of what is left of the open blocks, innermost first, given the lexemes that are
left. -/
inductive Pending : List Lexeme → List BlockTree → Prop where
  | nothing : Pending [] [.last .done]
  | newline {lexemes : List Lexeme} {block : BlockTree} {outer : List BlockTree} :
      Pending lexemes (block :: outer) →
      Pending (.newline :: lexemes) (.more .done .newline block :: outer)
  | semicolon {lexemes : List Lexeme} {block : BlockTree} {outer : List BlockTree} :
      Pending lexemes (block :: outer) →
      Pending (.semicolon :: lexemes) (.more .done .semicolon block :: outer)
  | string (text : String) {lexemes : List Lexeme} {block : BlockTree} {outer : List BlockTree} :
      Pending lexemes (block :: outer) →
      Pending (.quoted text :: lexemes) (block.prepend (.string text) :: outer)
  | word (text : String) (value : Word) (good : readWord text.toList = .ok value)
      {lexemes : List Lexeme} {block : BlockTree} {outer : List BlockTree} :
      Pending lexemes (block :: outer) →
      Pending (.bare text :: lexemes) (block.prepend (.word text value good) :: outer)
  | opening {lexemes : List Lexeme} {inner block : BlockTree} {outer : List BlockTree} :
      Pending lexemes (inner :: block :: outer) →
      Pending (.opening :: lexemes) (block.prepend (.nested inner) :: outer)
  | closing {lexemes : List Lexeme} {blocks : List BlockTree} :
      Pending lexemes blocks →
      Pending (.closing :: lexemes) (.last .done :: blocks)

/-- What is left can be derived in one way only. -/
theorem Pending.unique
    {lexemes : List Lexeme}
    {first second : List BlockTree}
    (one : Pending lexemes first)
    (other : Pending lexemes second) :
    first = second := by
  induction one generalizing second with
  | nothing =>
      cases other
      rfl
  | newline _ inductionHypothesis =>
      cases other with
      | newline rest =>
          cases inductionHypothesis rest
          rfl
  | semicolon _ inductionHypothesis =>
      cases other with
      | semicolon rest =>
          cases inductionHypothesis rest
          rfl
  | string text _ inductionHypothesis =>
      cases other with
      | string _ rest =>
          cases inductionHypothesis rest
          rfl
  | word text value good _ inductionHypothesis =>
      cases other with
      | word _ otherValue otherGood rest =>
          cases inductionHypothesis rest
          cases good.symm.trans otherGood
          rfl
  | opening _ inductionHypothesis =>
      cases other with
      | opening rest =>
          cases inductionHypothesis rest
          rfl
  | closing _ inductionHypothesis =>
      cases other with
      | closing rest =>
          cases inductionHypothesis rest
          rfl

/-- The block with the items of a line at the front of its first line. -/
def BlockTree.prependLine (block : BlockTree) : LineTree → BlockTree
  | .done => block
  | .item first later => (block.prependLine later).prepend first

theorem BlockTree.prependLine_last (line : LineTree) :
    (BlockTree.last .done).prependLine line = .last line := by
  match line with
  | .done => rfl
  | .item first later => rw [prependLine, prependLine_last later, prepend]

theorem BlockTree.prependLine_more
    (line : LineTree)
    (separator : Separator)
    (later : BlockTree) :
    (BlockTree.more .done separator later).prependLine line = .more line separator later := by
  match line with
  | .done => rfl
  | .item first rest => rw [prependLine, prependLine_more rest, prepend]

mutual

/-- A block that ends where its lexemes end is derived from them. -/
theorem BlockTree.pending
    (block : BlockTree)
    {rest : List Lexeme}
    {outer : List BlockTree}
    (ends : Pending rest (.last .done :: outer)) :
    Pending (block.lexemes ++ rest) (block :: outer) := by
  match block with
  | .last line =>
      have pending := line.pending ends
      rwa [BlockTree.prependLine_last] at pending
  | .more line .newline later =>
      have pending := line.pending (.newline (later.pending ends))
      rw [BlockTree.prependLine_more] at pending
      simpa [BlockTree.lexemes, Separator.lexeme] using pending
  | .more line .semicolon later =>
      have pending := line.pending (.semicolon (later.pending ends))
      rw [BlockTree.prependLine_more] at pending
      simpa [BlockTree.lexemes, Separator.lexeme] using pending

theorem LineTree.pending
    (line : LineTree)
    {rest : List Lexeme}
    {block : BlockTree}
    {outer : List BlockTree}
    (follows : Pending rest (block :: outer)) :
    Pending (line.lexemes ++ rest) (block.prependLine line :: outer) := by
  match line with
  | .done => exact follows
  | .item first later =>
      have pending := first.pending (later.pending follows)
      simpa [LineTree.lexemes, BlockTree.prependLine] using pending

theorem ItemTree.pending
    (item : ItemTree)
    {rest : List Lexeme}
    {block : BlockTree}
    {outer : List BlockTree}
    (follows : Pending rest (block :: outer)) :
    Pending (item.lexemes ++ rest) (block.prepend item :: outer) := by
  match item with
  | .string text => exact .string text follows
  | .word text value good => exact .word text value good follows
  | .nested inner =>
      have pending := inner.pending (.closing follows)
      simpa [ItemTree.lexemes] using Pending.opening pending

end

theorem Pending.exists_cons
    {lexemes : List Lexeme}
    {blocks : List BlockTree}
    (pending : Pending lexemes blocks) :
    ∃ block outer, blocks = block :: outer := by
  cases pending <;> exact ⟨_, _, rfl⟩

/-- The lexemes that derivations of open blocks spell, each block ended by a closing brace. -/
def spell : List BlockTree → List Lexeme
  | [] => []
  | [block] => block.lexemes
  | block :: outer => block.lexemes ++ .closing :: spell outer

theorem BlockTree.lexemes_prepend (first : ItemTree) (block : BlockTree) :
    (block.prepend first).lexemes = first.lexemes ++ block.lexemes := by
  cases block <;> simp [prepend, lexemes, LineTree.lexemes]

theorem spell_prepend (first : ItemTree) (block : BlockTree) (outer : List BlockTree) :
    spell (block.prepend first :: outer) = first.lexemes ++ spell (block :: outer) := by
  cases outer <;> simp [spell, BlockTree.lexemes_prepend]

theorem spell_more (separator : Separator) (block : BlockTree) (outer : List BlockTree) :
    spell (.more .done separator block :: outer) = separator.lexeme :: spell (block :: outer) := by
  cases outer <;> simp [spell, BlockTree.lexemes, LineTree.lexemes]

/-- Pending derivations spell the lexemes that are left. -/
theorem Pending.spell_eq
    {lexemes : List Lexeme}
    {blocks : List BlockTree}
    (pending : Pending lexemes blocks) :
    spell blocks = lexemes := by
  induction pending with
  | nothing => rfl
  | newline _ inductionHypothesis => rw [spell_more, inductionHypothesis, Separator.lexeme]
  | semicolon _ inductionHypothesis => rw [spell_more, inductionHypothesis, Separator.lexeme]
  | string text _ inductionHypothesis =>
      rw [spell_prepend, inductionHypothesis]
      rfl
  | word text value good _ inductionHypothesis =>
      rw [spell_prepend, inductionHypothesis]
      rfl
  | opening _ inductionHypothesis =>
      rw [spell_prepend, ← inductionHypothesis]
      simp [ItemTree.lexemes, spell]
  | closing pending inductionHypothesis =>
      obtain ⟨block, outer, rfl⟩ := pending.exists_cons
      rw [← inductionHypothesis]
      simp [spell, BlockTree.lexemes, LineTree.lexemes]

/-- No lexemes have two derivations. -/
theorem BlockTree.lexemes_injective
    {first second : BlockTree}
    (same : first.lexemes = second.lexemes) :
    first = second := by
  have one := first.pending .nothing
  have other := second.pending .nothing
  rw [same] at one
  cases one.unique other
  rfl

end Source
end Concatenative
