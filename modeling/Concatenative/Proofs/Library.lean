import Concatenative.Library
import Concatenative.Proofs.Machine.Steps
import Concatenative.Proofs.Source.Grammar

/-!
# The machine that the library makes

The text of the library denotes a sequence of definitions. Running it binds their names one after
the other, with the effects that are inferred at that moment, and does nothing else.
-/

namespace Concatenative
namespace Library

/-- The words that the library defines, with the effects that are inferred for them. -/
def definitions : List (String × Effect × Word) :=
  [("dup", ⟨1, 2, true⟩, .list [.atom "pick", .int 0]),
    ("over", ⟨1, 2, true⟩, .list [.atom "pick", .int 1]),
    ("swap", ⟨1, 1, true⟩, .list [.atom "roll", .int 1]),
    ("rot", ⟨1, 1, true⟩, .list [.atom "roll", .int 2]),
    ("nip", ⟨1, 0, true⟩, .list [.atom "drop", .atom "swap"]),
    ("not", ⟨1, 1, true⟩, .list [.atom "==", .int 0]),
    ("exit", ⟨0, 0, false⟩, .list [.atom "bye"]),
    ("stack", ⟨0, 0, false⟩, .list [.atom "echo", .atom "capture"]),
    ("loop", ⟨0, 0, false⟩,
      .list
        [.atom "eval", .atom "expand", .list [.atom "body"],
          .list [.atom "loop", .atom "body", .atom "eval", .atom "body"]]),
    ("times", ⟨0, 0, false⟩,
      .list
        [.atom "eval", .atom "expand", .list [.atom "n", .atom "body"],
          .list
            [.atom "if", .atom ">", .atom "n", .int 0,
              .list
                [.atom "times", .atom "-", .atom "n", .int 1, .atom "body",
                  .atom "eval", .atom "body"],
              .list []]]),
    ("interpret", ⟨1, 0, false⟩, .list [.atom "eval", .atom "parse", .atom "load"]),
    ("repl", ⟨0, 1, false⟩,
      .list
        [.atom "loop",
          .list
            [.atom "try",
              .list [.atom "eval", .atom "parse", .atom "prompt", .str "> "],
              .list [.atom "echo"]]])]

/-- The dictionary of the built-in words and the words of the library. -/
def dictionary : Dictionary :=
  Dictionary.builtins ++ definitions.map fun (name, effect, word) => (name, .defined effect word)

/-- The library does not bind the names of built-in words anew. -/
theorem get?_name (builtin : Builtin) :
    dictionary.get? builtin.name = some (.primitive builtin) := by
  cases builtin <;> decide +kernel

/-- A dictionary gives names the meanings that they have in the library. -/
def Provides (names : List String) (dictionary : Dictionary) : Prop :=
  ∀ name ∈ names, dictionary.get? name = Library.dictionary.get? name

theorem Provides.primitive
    {names : List String}
    {dictionary : Dictionary}
    (provides : Provides names dictionary)
    (builtin : Builtin)
    (used : builtin.name ∈ names) :
    dictionary.get? builtin.name = some (.primitive builtin) :=
  (provides builtin.name used).trans (get?_name builtin)

/-- A name that is not bound to a built-in word is one that the library defines. -/
theorem mem_definitions_of_get?
    {name : String}
    {effect : Effect}
    {word : Word}
    (found : dictionary.get? name = some (.defined effect word)) :
    (name, effect, word) ∈ definitions := by
  rcases List.mem_append.mp (Record.mem_of_get? found) with builtin | definition
  · obtain ⟨builtin, -, same⟩ := List.mem_map.mp builtin
    cases same
  · obtain ⟨⟨name, effect, word⟩, member, same⟩ := List.mem_map.mp definition
    cases same
    exact member

/-- The code that binds names to words, next word first. -/
def definingCode (definitions : List (String × Effect × Word)) : List Word :=
  definitions.flatMap fun (name, _, word) => [word, .atom "=", .atom name]

/-- The dictionary after names have been bound to words one after the other. -/
def extend (dictionary : Dictionary) (definitions : List (String × Effect × Word)) : Dictionary :=
  definitions.foldl
    (fun dictionary (name, _, word) =>
      dictionary.put name (.defined (dictionary.effectOfDefinition word) word))
    dictionary

theorem extend_builtins : extend Dictionary.builtins definitions = dictionary := by
  decide +kernel

theorem toList_text : text.toList = ['\n'].intercalate (lines.map String.toList) := by
  rw [text, String.toList_intercalate]
  simp only [String.reduceToList]

/-- The lines of the library denote its definitions. -/
theorem parseChars_lines :
    (Source.parseChars (['\n'].intercalate (lines.map String.toList))).toOption =
      some (definingCode definitions).reverse := by
  rw [Source.parseChars_eq_readTokens]
  simp only [lines, List.map_cons, List.map_nil, String.reduceToList]
  decide +kernel

theorem parse_text : Source.parse text = .ok (definingCode definitions).reverse := by
  have denotes : ∀ program : Except Source.ReadError (List Word),
      program.toOption = some (definingCode definitions).reverse →
      program = .ok (definingCode definitions).reverse := by
    intro program words
    cases program with
    | error error => cases words
    | ok program => exact congrArg Except.ok (Option.some.inj words)
  rw [Source.parse, toList_text]
  exact denotes _ parseChars_lines

variable {σ : Type} {host : Host σ}

/-- Running a definition binds its name and changes nothing else but the code, the journal and the
trace. -/
theorem advances_definition
    (host : Host σ)
    {machine : Machine σ}
    {name : String}
    {items rest : List Word}
    (code : machine.code = .list items :: .atom "=" :: .atom name :: rest)
    (bound : machine.dictionary.get? "=" = some (.primitive .assign)) :
    ∃ log journal,
      Machine.Advances host 2 machine
        { machine with
          code := rest
          dictionary := machine.dictionary.put name
            (.defined (machine.dictionary.effectOfDefinition (.list items)) (.list items))
          log
          journal } := by
  let shifted : Machine σ :=
    { machine with
      data := .list items :: machine.data
      code := .atom "=" :: .atom name :: rest }
  have shift : machine.step host = .running shifted := Machine.step_of_literal (by simp) code
  obtain ⟨log, begun⟩ : ∃ log, shifted.begun "=" (.atom name :: rest) =
      { shifted with code := .atom name :: rest, journal := [], log } := ⟨_, Machine.begun_eq⟩
  refine ⟨log, [.popped (.list items), .taken (.atom name)], .step shift (.step ?_ (.start _))⟩
  refine Machine.step_of_perform_ok rfl bound ?_
  rw [begun]
  rfl

/-- Running definitions binds their names in turn. -/
theorem advances_definitions
    (host : Host σ)
    {machine : Machine σ}
    {definitions : List (String × Effect × Word)}
    (code : machine.code = definingCode definitions)
    (bound : machine.dictionary.get? "=" = some (.primitive .assign))
    (lists : ∀ definition ∈ definitions, definition.2.2.isList = true)
    (others : ∀ definition ∈ definitions, definition.1 ≠ "=") :
    ∃ log journal,
      Machine.Advances host (2 * definitions.length) machine
        { machine with
          code := []
          dictionary := extend machine.dictionary definitions
          log
          journal } := by
  induction definitions generalizing machine with
  | nil =>
      obtain ⟨⟨data, code, journal⟩, dictionary, recovery, tracing, world, log⟩ := machine
      cases code
      exact ⟨log, journal, .start _⟩
  | cons definition later inductionHypothesis =>
      obtain ⟨name, effect, word⟩ := definition
      simp only [List.forall_mem_cons] at lists others
      cases word with
      | list items =>
          obtain ⟨log, journal, first⟩ := advances_definition host code bound
          let defined : Machine σ :=
            { machine with
              code := definingCode later
              dictionary := machine.dictionary.put name
                (.defined (machine.dictionary.effectOfDefinition (.list items)) (.list items))
              log
              journal }
          have kept : defined.dictionary.get? "=" = some (.primitive .assign) :=
            (Record.get?_put_of_ne _ _ others.1).trans bound
          obtain ⟨log, journal, rest⟩ := inductionHypothesis rfl kept lists.2 others.2
          rw [List.length_cons, Nat.mul_succ, Nat.add_comm]
          exact ⟨log, journal, first.trans rest⟩
      | atom | int | hex | str | dict => cases lists.1

/-- Every machine begins with the library's dictionary, and with nothing on its stacks. -/
theorem fresh_eq (host : Host σ) (tracing : Bool) (world : σ) :
    ∃ log,
      fresh host tracing world = { bare tracing world with dictionary := dictionary, log } := by
  let loaded : Machine σ := { bare tracing world with code := definingCode definitions }
  have bound : loaded.dictionary.get? "=" = some (.primitive .assign) := rfl
  obtain ⟨log, journal, advances⟩ :=
    advances_definitions host rfl bound (by decide +kernel) (by decide +kernel)
  have finished := Machine.run_add (advances.run_eq_ended (Machine.step_of_no_code rfl)) 75
  have code : (definingCode definitions).reverse.reverse ++ (bare tracing world).code =
      definingCode definitions := by
    rw [List.reverse_reverse]
    exact List.append_nil _
  refine ⟨log, ?_⟩
  rw [fresh, Machine.evaluate_of_parse host steps parse_text, code, ← extend_builtins]
  exact congrArg (settled _) finished

theorem dictionary_fresh (host : Host σ) (tracing : Bool) (world : σ) :
    (fresh host tracing world).dictionary = dictionary := by
  obtain ⟨log, begins⟩ := fresh_eq host tracing world
  rw [begins]

end Library
end Concatenative
