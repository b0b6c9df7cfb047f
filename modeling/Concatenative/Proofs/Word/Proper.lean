import Concatenative.Machine.Builtin
import Concatenative.Proofs.Record
import Concatenative.Proofs.Source.RoundTrip

/-!
# Proper words

The words that can come up while a program runs: numbers are in their ranges, atoms are spelled as
bare words, and the names of a dict are distinct, at every depth. The words of a program are proper,
and so are the words that built-in words make of proper ones.
-/

namespace Concatenative

/-! ## Words -/

theorem Source.Plain.ne_empty
    {name : String}
    (spelled : Plain name.toList) :
    name ≠ "" := by
  rintro rfl
  generalize empty : "".toList = chars at spelled
  cases spelled with
  | equals count => cases empty
  | word begins goesOn => cases empty

/-- A word that can come up while a program runs. -/
inductive Word.Proper : Word → Prop where
  /-- A name that is a bare word. -/
  | atom {name : String} (spelled : Source.Plain name.toList) : Proper (.atom name)
  /-- An integer of thirty-two bits. -/
  | int {value : Int} (inRange : Source.InRange value) : Proper (.int value)
  /-- A natural number of thirty-two bits. -/
  | hex {value : Int} (nonneg : 0 ≤ value) (small : value ≤ Source.maxHex) : Proper (.hex value)
  /-- Any text. -/
  | str (text : String) : Proper (.str text)
  /-- A list of proper words. -/
  | list {items : List Word} (each : ∀ item ∈ items, Proper item) : Proper (.list items)
  /-- Proper words under distinct names. -/
  | dict {entries : List (String × Word)}
      (distinct : (Record.names entries).Nodup)
      (each : ∀ entry ∈ entries, Proper entry.2) :
      Proper (.dict entries)

namespace Word

variable {word : Word}

/-- The words of a program are proper. -/
theorem WellFormed.proper (wellFormed : word.WellFormed) : word.Proper := by
  induction wellFormed with
  | atom spelled noInteger => exact .atom spelled
  | int inRange => exact .int inRange
  | hex inRange => exact .hex (Int.natCast_nonneg _) (Int.ofNat_le.mpr inRange)
  | str quoteless tabless => exact .str _
  | list each inductionHypothesis => exact .list inductionHypothesis

theorem proper_of_parse
    {text : String}
    {words : List Word}
    (parsed : Source.parse text = .ok words) :
    ∀ word ∈ words, word.Proper :=
  fun word present => (Source.wellFormed_of_parse parsed word present).proper

theorem proper_closing : (atom Builtin.unprotect.name).Proper := by
  have chars : Builtin.unprotect.name.toList = ['p', 'o', 'p', 'e', 'h'] := rfl
  refine .atom ?_
  rw [chars]
  refine Source.plain_of_forall_startsWord (List.cons_ne_nil _ _) ?_
  iterate 4 rw [List.forall_mem_cons]
  rw [List.forall_mem_singleton]
  decide

theorem proper_wrap (number : Int) : (int (wrap number)).Proper :=
  .int ⟨minInt_le_wrap number, wrap_le_maxInt number⟩

theorem proper_ofBool (flag : Bool) : (ofBool flag).Proper := by
  cases flag <;> exact .int ⟨by decide, by decide⟩

theorem proper_strings {α : Type} (text : α → String) (items : List α) :
    (list (items.map fun item => str (text item))).Proper := by
  refine .list fun word present => ?_
  obtain ⟨item, -, rfl⟩ := List.mem_map.mp present
  exact .str (text item)

/-- A template filled with proper words is proper. -/
theorem Proper.expand
    {values : Record Word}
    (proper : word.Proper)
    (each : ∀ entry ∈ values, entry.2.Proper) :
    (word.expand values).Proper := by
  induction proper with
  | @atom name spelled =>
      rw [Word.expand]
      cases found : values.get? name with
      | none => exact .atom spelled
      | some value => exact each _ (Record.mem_of_get? found)
  | list _ inductionHypothesis =>
      rw [Word.expand, expandEach_eq_map]
      refine .list fun item present => ?_
      obtain ⟨template, found, rfl⟩ := List.mem_map.mp present
      exact inductionHypothesis template found
  | int inRange => exact .int inRange
  | hex nonneg small => exact .hex nonneg small
  | str text => exact .str text
  | dict distinct each => exact .dict distinct each

/-! ## Operands -/

/-- The reading of an operand gives values with a property if the operand is proper. -/
def Ensures {α : Type} (read : Word → Except EvalError α) (property : α → Prop) : Prop :=
  ∀ word value, word.Proper → read word = .ok value → property value

theorem ensures_true {α : Type} (read : Word → Except EvalError α) :
    Ensures read fun _ => True :=
  fun _ _ _ _ => trivial

theorem ensures_asAtom : Ensures asAtom fun name => Source.Plain name.toList := by
  intro word name proper read
  cases proper with
  | atom spelled =>
      cases read
      exact spelled
  | int | hex | str | list | dict => cases read

theorem ensures_asList : Ensures asList fun items => ∀ item ∈ items, item.Proper := by
  intro word items proper read
  cases proper with
  | list each =>
      cases read
      exact each
  | atom | int | hex | str | dict => cases read

theorem ensures_asDict : Ensures asDict fun entries => (dict entries).Proper := by
  intro word entries proper read
  cases proper with
  | dict distinct each =>
      cases read
      exact .dict distinct each
  | atom | int | hex | str | list => cases read

theorem ensures_intoInt : Ensures intoInt Source.InRange := by
  intro word number proper read
  cases proper with
  | int inRange =>
      cases read
      exact inRange
  | hex nonneg small =>
      simp only [intoInt] at read
      split at read
      · rename_i atMost
        cases read
        exact ⟨Int.le_trans (by decide) nonneg, atMost⟩
      · cases read
  | atom | str | list | dict => cases read

theorem ensures_intoHex : Ensures intoHex fun number => (hex number).Proper := by
  intro word number proper read
  cases proper with
  | hex nonneg small =>
      cases read
      exact .hex nonneg small
  | int inRange =>
      simp only [intoHex] at read
      split at read
      · rename_i nonneg
        cases read
        exact .hex nonneg (Int.le_trans inRange.2 (by decide))
      · cases read
  | atom | str | list | dict => cases read

/-! ## Dicts -/

theorem proper_dict_nil : (dict []).Proper :=
  .dict List.Pairwise.nil fun _ present => absurd present List.not_mem_nil

theorem Proper.put
    {entries : Record Word}
    {value : Word}
    (proper : (Word.dict entries).Proper)
    (name : String)
    (valueProper : value.Proper) :
    (Word.dict (Record.put name value entries)).Proper := by
  cases proper with
  | dict distinct each =>
      refine .dict (Record.nodup_names_put distinct name value) fun entry present => ?_
      rcases Record.eq_or_mem_of_mem_put present with rfl | old
      · exact valueProper
      · exact each entry old

theorem Proper.get?
    {entries : Record Word}
    {name : String}
    {value : Word}
    (proper : (Word.dict entries).Proper)
    (found : Record.get? entries name = some value) :
    value.Proper := by
  cases proper with
  | dict distinct each => exact each _ (Record.mem_of_get? found)

/-- Proper words write the entries of a proper dict. -/
theorem proper_of_entriesFromEnd
    {items : List Word}
    {entries written : Record Word}
    (each : ∀ item ∈ items, item.Proper)
    (proper : (Word.dict entries).Proper)
    (reads : Action.entriesFromEnd entries items = .ok written) :
    (dict written).Proper := by
  fun_induction Action.entriesFromEnd entries items with
  | case1 entries =>
      cases reads
      exact proper
  | case2 entries value name rest inductionHypothesis =>
      simp only [List.forall_mem_cons] at each
      exact inductionHypothesis each.2.2.2 (proper.put name each.1) reads
  | case3 => cases reads
  | case4 => cases reads

end Word
end Concatenative
