import Concatenative.Machine.Question
import Concatenative.Proofs.Library
import Concatenative.Proofs.Machine.Desk
import Concatenative.Proofs.Record
import Concatenative.Proofs.Source.RoundTrip

/-!
# Written dicts

The written form of a dict is a program: the word `dict` and a block with a line for each entry. A
block denotes its last line first, and `dict` reads its operand from the end, so that the entries
come back in their order.
-/

namespace Concatenative

/-! ## The operand of `dict` -/

namespace Word

/-- The words that write a pair. -/
def pairWords (pair : String × Word) : List Word :=
  [.atom pair.1, .atom "=", pair.2]

/-- The words that write pairs, as a block with a line for each pair denotes them. -/
def pairsWords (pairs : List (String × Word)) : List Word :=
  pairs.reverse.flatMap pairWords

theorem pairsWords_cons (pair : String × Word) (later : List (String × Word)) :
    pairsWords (pair :: later) = pairsWords later ++ pairWords pair := by
  simp [pairsWords]

end Word

namespace Action

/-- From the end, the pairs are read in their order. -/
theorem entriesFromEnd_pairsWords
    (entries : Record Word)
    (pairs : List (String × Word)) :
    entriesFromEnd entries (Word.pairsWords pairs).reverse =
      .ok (pairs.foldl (fun record (name, value) => record.put name value) entries) := by
  induction pairs generalizing entries with
  | nil => rfl
  | cons pair later inductionHypothesis =>
      rw [Word.pairsWords_cons, List.reverse_append, List.foldl_cons]
      exact inductionHypothesis _

/-- Later pairs of a name replace the value of earlier ones. -/
theorem entriesOf_pairsWords (pairs : List (String × Word)) :
    entriesOf (Word.pairsWords pairs) = .ok (.ofPairs pairs) :=
  entriesFromEnd_pairsWords [] pairs

end Action

/-! ## The text of a dict -/

namespace Word

theorem displayEntries_eq_map (pairs : List (String × Word)) :
    displayEntries pairs = (pairs.map pairWords).map displayAll := by
  induction pairs with
  | nil => rfl
  | cons pair later inductionHypothesis =>
      obtain ⟨name, value⟩ := pair
      have line : displayEntry (name, value) = displayAll (pairWords (name, value)) := by
        apply String.toList_inj.mp
        simp [displayEntry, pairWords, displayAll, join, display]
      rw [displayEntries, inductionHypothesis, line]
      rfl

theorem toList_displayAll_dict (entries : List (String × Word)) :
    (displayAll [.dict entries]).toList =
      (display (.atom "dict")).toList ++
        ' ' :: (braced " ; " ((entries.map pairWords).map displayAll)).toList := by
  rw [← displayEntries_eq_map]
  simp [displayAll, join, display]

end Word

namespace Source

theorem joins_semicolon : Joins " ; ".toList [.semicolon] :=
  fun front back => front.spaced (spells_semicolon.spaced back)

theorem exists_block_of_lines
    {lines : List (List Word)}
    (present : lines ≠ [])
    (each : ∀ words ∈ lines,
      ∃ line : LineTree, line.meaning = words ∧ line.lexemes = lexemesOfEach words) :
    ∃ block : BlockTree,
      block.meaning = lines.reverse.flatten ∧
        block.lexemes = [.semicolon].intercalate (lines.map lexemesOfEach) := by
  induction lines with
  | nil => exact absurd rfl present
  | cons words rest inductionHypothesis =>
      rw [List.forall_mem_cons] at each
      obtain ⟨line, meaning, lexemes⟩ := each.1
      -- No semicolon follows the last line.
      cases rest with
      | nil =>
          refine ⟨.last line, ?_, ?_⟩
          · simpa [BlockTree.meaning] using meaning
          · simpa [BlockTree.lexemes] using lexemes
      | cons next others =>
          obtain ⟨later, laterMeaning, laterLexemes⟩ :=
            inductionHypothesis (List.cons_ne_nil _ _) each.2
          refine ⟨.more line .semicolon later, ?_, ?_⟩
          · rw [BlockTree.meaning, meaning, laterMeaning]
            simp
          · rw [BlockTree.lexemes, lexemes, laterLexemes]
            simp [Separator.lexeme]

/-- Lines, written with semicolons between them, spell a derivation of a block. -/
theorem exists_block
    {lines : List (List Word)}
    (present : lines ≠ [])
    (each : ∀ line ∈ lines, ∀ word ∈ line, word.WellFormed) :
    ∃ block : BlockTree,
      block.meaning = lines.reverse.flatten ∧
        Spells (" ; ".intercalate (lines.map Word.displayAll)).toList block.lexemes := by
  obtain ⟨block, meaning, lexemes⟩ := exists_block_of_lines present fun line inside =>
    exists_line_of_items fun word inLine => exists_item (each line inside word inLine)
  refine ⟨block, meaning, ?_⟩
  rw [lexemes, String.toList_intercalate, List.map_map]
  refine joins_semicolon.intercalate ?_
  rw [List.forall₂_map_left_iff, List.forall₂_map_right_iff, List.forall₂_same]
  intro line inside
  exact spells_displayAll fun word inLine => spells_display (each line inside word inLine)

/-- Lines between braces, with semicolons between them, spell a derivation of a list. -/
theorem exists_nested
    {lines : List (List Word)}
    (each : ∀ line ∈ lines, ∀ word ∈ line, word.WellFormed) :
    ∃ item : ItemTree,
      item.meaning = .list lines.reverse.flatten ∧
        Spells (Word.braced " ; " (lines.map Word.displayAll)).toList item.lexemes := by
  by_cases present : lines = []
  · rw [present]
    exact ⟨.nested (.last .done), rfl, spells_braces⟩
  · obtain ⟨block, meaning, spells⟩ := exists_block present each
    refine ⟨.nested block, ?_, ?_⟩
    · rw [ItemTree.meaning, meaning]
    · rw [toList_braced (by simpa using present)]
      exact spells_opening.spaced (spells.spaced spells_closing)

/-- The written form of a dict denotes the word `dict` and the words that write its entries. -/
theorem parse_display_dict
    {entries : List (String × Word)}
    (keys : ∀ entry ∈ entries, Denoted (.atom entry.1))
    (values : ∀ entry ∈ entries, Denoted entry.2) :
    parse (Word.displayAll [.dict entries]) =
      .ok [.atom "dict", .list (Word.pairsWords entries)] := by
  have each : ∀ line ∈ entries.map Word.pairWords, ∀ word ∈ line, word.WellFormed := by
    have mark : Denoted (.atom "=") :=
      ⟨"=", [.atom "="], parse_of_readTokens rfl, List.mem_singleton_self _⟩
    simp only [List.forall_mem_map, Word.pairWords, List.forall_mem_cons]
    intro entry present
    exact ⟨(keys entry present).wellFormed, mark.wellFormed, (values entry present).wellFormed,
      List.forall_mem_nil _⟩
  have first : Denoted (.atom "dict") :=
    ⟨"dict", [.atom "dict"], parse_of_readTokens rfl, List.mem_singleton_self _⟩
  obtain ⟨word, wordMeaning, wordLexemes⟩ := exists_item first.wellFormed
  have wordSpells := spells_display first.wellFormed
  rw [← wordLexemes] at wordSpells
  obtain ⟨operand, operandMeaning, operandSpells⟩ := exists_nested each
  let line : LineTree := .item word (.item operand .done)
  have derives :
      (BlockTree.last line).Derives (tokens (Word.displayAll [.dict entries]).toList) := by
    rw [Word.toList_displayAll_dict]
    refine (wordSpells.spaced operandSpells).tokens_eq.trans ?_
    simp [line, BlockTree.lexemes, LineTree.lexemes]
  rw [parse, BlockTree.parseChars_eq _ derives]
  simp only [line, BlockTree.meaning, LineTree.meaning, wordMeaning, operandMeaning]
  simp [Word.pairsWords, List.flatMap]

end Source

/-! ## Evaluation -/

namespace Machine

variable {σ : Type} {host : Host σ} {dictionary : Dictionary} {world : σ}
variable {data code : List Word} {recovery : List Snapshot} {log : List Event}

/-- The words that a written dict denotes leave the dict. -/
theorem leads_written_dict
    {entries : Record Word}
    (bound : dictionary.get? "dict" = some (.primitive .dict))
    (distinct : (Record.names entries).Nodup) :
    Leads host
      (Desk.machine (.list (Word.pairsWords entries) :: .atom "dict" :: code) recovery log
        ⟨data, dictionary, world⟩)
      (Desk.machine code recovery log ⟨.dict entries :: data, dictionary, world⟩) := by
  have rebuilt := Action.entriesOf_pairsWords entries
  rw [Record.ofPairs_of_nodup distinct] at rebuilt
  exact leads_list.trans (leads_dict bound rebuilt)

/-- The written form of a dict is a program that makes it. Let the names of a dict be distinct, let
each of them be read as an atom, and let its values be words that texts denote. A machine with
nothing to execute, in which the name `dict` has its own meaning, evaluates the written form to a
normal end. It has the same dict on top of its data stack then, with its entries in the same order,
and nothing else is changed. -/
theorem evaluate_displayed_dict
    {machine : Machine σ}
    {entries : Record Word}
    (host : Host σ)
    (distinct : (Record.names entries).Nodup)
    (keys : ∀ entry ∈ entries, Source.parse entry.1 = .ok [.atom entry.1])
    (values : ∀ entry ∈ entries, Source.Denoted entry.2)
    (idle : machine.code = [])
    (bound : machine.dictionary.get? "dict" = some (.primitive .dict)) :
    ∃ steps after,
      machine.evaluate host steps (Word.displayAll [.dict entries]) = some (.ok () after) ∧
      Untouched { machine with data := .dict entries :: machine.data } after := by
  have parsed := Source.parse_display_dict
    (fun entry present => ⟨_, _, keys entry present, List.mem_singleton_self _⟩) values
  exact (leads_written_dict bound distinct).exists_evaluate machine parsed idle

/-- Keys may look like the sign between a key and its value or like a number that is too large, and
a text may go over lines. -/
theorem evaluate_displayed_dict_odd :
    let entries : Record Word :=
      [("=", .list [.atom "=", .list []]), ("==", .str "x\ny"), ("2147483648", .hex 255),
        ("a\"", .int (-5))]
    let machine : Machine Answer :=
      { data := [.str "below"]
        dictionary := Library.dictionary
        tracing := true
        world := {} }
    Word.displayAll [.dict entries] =
        "dict \x7b = = \x7b = \x7b\x7d \x7d ; == = \"x\ny\" ; 2147483648 = #ff ; a\" = -5 \x7d" ∧
      ∃ steps after,
        machine.evaluate Answer.host steps (Word.displayAll [.dict entries]) =
          some (.ok () after) ∧
        Untouched { machine with data := [.dict entries, .str "below"] } after := by
  intro entries machine
  have keys : ∀ entry ∈ entries, Source.parse entry.1 = .ok [.atom entry.1] := by
    simp only [Source.parse_eq_readTokens]
    decide +kernel
  have parsed : Source.parse "-5 ; #FF ; \"x\ny\" ; \x7b = \x7b \x7d \x7d" =
      .ok (entries.map Prod.snd) := by
    rw [Source.parse_eq_readTokens]
    decide +kernel
  have values : ∀ entry ∈ entries, Source.Denoted entry.2 :=
    fun entry present => ⟨_, _, parsed, List.mem_map_of_mem present⟩
  refine ⟨by decide +kernel, ?_⟩
  exact evaluate_displayed_dict Answer.host (by decide) keys values rfl (Library.get?_name .dict)

end Machine
end Concatenative
