import Concatenative.Machine.Question
import Concatenative.Proofs.Library
import Concatenative.Proofs.Machine.Desk
import Concatenative.Proofs.Record

/-!
# Filling templates

Filling a template is a substitution: all atoms are replaced at once, and what is put in is not
searched again. So two substitutions in turn are a single one, and only the atoms of a template
matter. The word `expand` pairs the names of a list with the words that lie below the template.
-/

namespace Concatenative
namespace Word

/-! ## The atoms of a template -/

mutual

/-- The names of the atoms in a word, in lists too but not in dicts. -/
def atoms : Word → List String
  | atom name => [name]
  | list items => atomsOfEach items
  | _ => []
termination_by structural word => word

/-- The names of the atoms in each word of a sequence. -/
def atomsOfEach : List Word → List String
  | [] => []
  | item :: rest => atoms item ++ atomsOfEach rest
termination_by structural items => items

end

theorem atomsOfEach_eq_flatMap (items : List Word) : atomsOfEach items = items.flatMap atoms := by
  induction items with
  | nil => rfl
  | cons item rest inductionHypothesis => simp [atomsOfEach, inductionHypothesis]

theorem mem_atoms_list
    {items : List Word}
    {item : Word}
    {name : String}
    (present : item ∈ items)
    (within : name ∈ item.atoms) :
    name ∈ (list items).atoms := by
  rw [atoms, atomsOfEach_eq_flatMap]
  exact List.mem_flatMap.mpr ⟨item, present, within⟩

theorem expand_list (values : Record Word) (items : List Word) :
    (list items).expand values = list (items.map (expand values)) := by
  rw [expand, expandEach_eq_map]

/-- What is not asked for does not matter. -/
theorem expand_congr
    {values others : Record Word}
    {word : Word}
    (same : ∀ name ∈ word.atoms, values.get? name = others.get? name) :
    word.expand values = word.expand others := by
  induction word with
  | atom name => rw [expand, expand, same name (List.mem_singleton_self name)]
  | list items inductionHypothesis =>
      rw [expand_list, expand_list]
      refine congrArg list (List.map_congr_left fun item present => ?_)
      exact inductionHypothesis item present fun name within =>
        same name (mem_atoms_list present within)
  | int | hex | str | dict => rfl

theorem expand_nil (word : Word) : word.expand [] = word := by
  induction word with
  | list items inductionHypothesis =>
      rw [expand_list, List.map_congr_left inductionHypothesis, List.map_id']
  | atom | int | hex | str | dict => rfl

/-- A word whose atoms have no values stays as it is. -/
theorem expand_eq_self
    {values : Record Word}
    {word : Word}
    (unbound : ∀ name ∈ word.atoms, values.get? name = none) :
    word.expand values = word :=
  (expand_congr unbound).trans (expand_nil word)

/-! ## One substitution after the other -/

/-- A record gives to each name what becomes of its atom if one record is filled in and then another
one. -/
structure Composes (first second composed : Record Word) : Prop where
  /-- A name of the first record has its value there, filled in from the second one. -/
  own : ∀ name value,
    first.get? name = some value → composed.get? name = some (value.expand second)
  /-- Any other name has its value in the second record. -/
  other : ∀ name, first.get? name = none → composed.get? name = second.get? name

/-- The values of a record, filled in from another one, and behind them that other one. -/
def composed (first second : Record Word) : Record Word :=
  first.map (fun entry => (entry.1, entry.2.expand second)) ++ second

theorem get?_composed (first second : Record Word) (name : String) :
    (composed first second).get? name =
      ((first.get? name).map (expand second)).or (second.get? name) := by
  rw [composed, Record.get?_append, Record.get?_mapValues fun _ => expand second]

theorem composes_composed (first second : Record Word) :
    Composes first second (composed first second) where
  own name value found := by rw [get?_composed, found, Option.map_some, Option.some_or]
  other name missing := by rw [get?_composed, missing, Option.map_none, Option.none_or]

/-- Two substitutions in turn are one. -/
theorem Composes.expand_expand
    {first second composed : Record Word}
    (composes : Composes first second composed)
    (word : Word) :
    (word.expand first).expand second = word.expand composed := by
  induction word with
  | atom name =>
      cases found : first.get? name with
      | none => simp only [expand, found, Option.getD_none, composes.other name found]
      | some value => simp only [expand, found, Option.getD_some, composes.own name value found]
  | list items inductionHypothesis =>
      rw [expand_list, expand_list, expand_list, List.map_map]
      exact congrArg list (List.map_congr_left inductionHypothesis)
  | int | hex | str | dict => rfl

end Word

namespace Machine

variable {σ : Type} {host : Host σ} {machine : Machine σ} {name : String} {below : List Word}

/-- A step that executes `expand` fills the template in with the words that lie below it. -/
theorem exists_step_of_expand
    {template : Word}
    {rest : List Word}
    (host : Host σ)
    (pairs : List (String × Word))
    (bound : machine.dictionary.get? name = some (.primitive .expand))
    (next : machine.code = .atom name :: below)
    (operands : machine.data =
      .list (pairs.map fun pair => .atom pair.1) :: template :: (pairs.map Prod.snd ++ rest)) :
    ∃ after,
      machine.step host = .running after ∧
      Untouched
        { machine with data := template.expand (.ofPairs pairs) :: rest, code := below } after := by
  have begunOperands : (machine.begun name below).data = _ := data_begun.trans operands
  obtain ⟨journal, done⟩ := Action.perform_expand host pairs begunOperands
  refine ⟨_, step_of_perform_ok next bound done, ?_⟩
  exact ⟨rfl, code_begun, dictionary_begun, recovery_begun, world_begun, calls_begun⟩

/-- Filling in templates is simultaneous substitution. Filling in two records in turn is filling in
one: the values of the first, filled in from the second, and the values of the second for all other
names. A word in which no atom outside dicts has a value stays as it is, and records that give the
same to these atoms make the same of a word. The word `expand` replaces a list of names, a template
and a value for each name by the template, filled in from a record that gives each name the value
paired with its last occurrence, and changes nothing else. -/
theorem expansion_is_substitution (host : Host σ) :
    (∀ (word : Word) (first second : Record Word),
      Word.Composes first second (Word.composed first second) ∧
      ∀ record, Word.Composes first second record →
        (word.expand first).expand second = word.expand record) ∧
    (∀ (word : Word) (values : Record Word),
      (∀ name ∈ word.atoms, values.get? name = none) → word.expand values = word) ∧
    (∀ (word : Word) (values others : Record Word),
      (∀ name ∈ word.atoms, values.get? name = others.get? name) →
        word.expand values = word.expand others) ∧
    ∀ (machine : Machine σ) (name : String) (pairs : List (String × Word)) (template : Word)
      (rest below : List Word),
      machine.dictionary.get? name = some (.primitive .expand) →
      machine.code = .atom name :: below →
      machine.data =
        .list (pairs.map fun pair => .atom pair.1) :: template :: (pairs.map Prod.snd ++ rest) →
      Record.LastOf pairs (.ofPairs pairs) ∧
      ∃ after,
        machine.step host = .running after ∧
        Untouched
          { machine with data := template.expand (.ofPairs pairs) :: rest, code := below }
          after := by
  refine ⟨fun word first second => ?_, fun _ _ => Word.expand_eq_self,
    fun _ _ _ => Word.expand_congr,
    fun machine name pairs template rest below bound next operands => ?_⟩
  · exact ⟨Word.composes_composed first second, fun record composes => composes.expand_expand word⟩
  · exact ⟨Record.lastOf_ofPairs pairs, exists_step_of_expand host pairs bound next operands⟩

/-- The value of a name is a name that has a value too, and a dict in the template stays as it is.
On the data stack the name `x` is paired with two values. -/
theorem expansion_is_substitution_nested :
    let template : Word :=
      .list [.atom "x", .list [.atom "y", .atom "z", .dict [("x", .atom "x")]]]
    let first : Record Word := [("x", .list [.atom "y"])]
    let second : Record Word := [("y", .int 7), ("x", .int 9)]
    let machine : Machine Answer :=
      Desk.machine [.atom "expand", .atom "bye"] [] []
        ⟨[.list [.atom "x", .atom "y", .atom "x"], template, .int 1, .atom "x", .int 3,
            .str "rest"],
          Library.dictionary, {}⟩
    (template.expand first).expand second = template.expand (Word.composed first second) ∧
      template.expand (Word.composed first second) =
        .list [.list [.int 7], .list [.int 7, .atom "z", .dict [("x", .atom "x")]]] ∧
      template.expand [("a", .int 0)] = template ∧
      template.expand (second ++ first) = template.expand second ∧
      ∃ after,
        machine.step Answer.host = .running after ∧
        Untouched
          { machine with
            data :=
              [.list [.int 3, .list [.atom "x", .atom "z", .dict [("x", .atom "x")]]], .str "rest"]
            code := [.atom "bye"] }
          after := by
  intro template first second machine
  obtain ⟨composition, unbound, congruence, execution⟩ := expansion_is_substitution Answer.host
  have pairs := execution machine "expand" [("x", .int 1), ("y", .atom "x"), ("x", .int 3)] template
    [.str "rest"] [.atom "bye"] (Library.get?_name .expand) rfl rfl
  obtain ⟨composes, equal⟩ := composition template first second
  exact ⟨equal _ composes, by decide, unbound template _ (by decide),
    congruence template _ _ (by decide), pairs.2⟩

end Machine
end Concatenative
