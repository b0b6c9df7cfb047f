import Concatenative.Builtin
import Concatenative.Record
import Concatenative.Word.Basic

/-!
# Dictionaries

A dictionary says what names mean. A name is bound to a built-in word or to a word that the program
defined, together with the stack effect that was inferred when it was defined.
-/

namespace Concatenative

/-- What a name means. -/
inductive Binding where
  /-- A built-in word. -/
  | primitive (builtin : Builtin)
  /-- A word that the program defined, and its effect. -/
  | defined (effect : Effect) (word : Word)
  deriving DecidableEq

namespace Binding

/-- The stack effect stored with a binding. -/
def effect : Binding → Effect
  | primitive builtin => builtin.effect
  | defined effect _ => effect

/-- The short description of a binding: what it is, and its effect. -/
def describe : Binding → String
  | primitive builtin => "primitive " ++ builtin.effect.describe
  | defined effect _ => "interpreted " ++ effect.describe

end Binding

/-- The meanings of names. -/
abbrev Dictionary := Record Binding

namespace Dictionary

/-- The dictionary of the built-in words. -/
def builtins : Dictionary :=
  (Builtin.controlWords ++ Builtin.dataWords).map fun builtin =>
    (builtin.name, .primitive builtin)

/-- The stack effect of running a word; nothing for a name that means nothing. -/
def effectOf? (dictionary : Dictionary) : Word → Option Effect
  | .atom name => (dictionary.get? name).map Binding.effect
  | _ => some .literal

/-- The stack effect of running words in turn after code of a given effect. The search ends at the
first word whose effect is unknown or inexact. -/
def inferFrom (dictionary : Dictionary) (effect : Effect) : List Word → Effect
  | [] => effect
  | word :: rest =>
    match dictionary.effectOf? word with
    | none => { effect with exact := false }
    | some next =>
      if (effect.andThen next).exact then inferFrom dictionary (effect.andThen next) rest
      else effect.andThen next

/-- The stack effect of a piece of code, of which the last word runs first. -/
def infer (dictionary : Dictionary) (body : List Word) : Effect :=
  dictionary.inferFrom .neutral body.reverse

/-- The stack effect with which a word is bound to a name. -/
def effectOfDefinition (dictionary : Dictionary) : Word → Effect
  | .list body => dictionary.infer body
  | _ => .literal

/-- The names of a dictionary, sorted by code points. -/
def sortedNames (dictionary : Dictionary) : List String :=
  dictionary.names.mergeSort fun first second => first ≤ second

/-- The names that begin with a text, sorted by code points. -/
def completions (dictionary : Dictionary) (beginning : String) : List String :=
  dictionary.sortedNames.filter fun name => beginning.toList.isPrefixOf name.toList

/-- The definitions of a dictionary that another one does not have, sorted by name. -/
def definitionsBeyond (dictionary base : Dictionary) : List (String × Effect × Word) :=
  dictionary.sortedNames.filterMap fun name =>
    match dictionary.get? name with
    | some (.defined effect word) =>
      if base.get? name = some (.defined effect word) then none else some (name, effect, word)
    | _ => none

end Dictionary
end Concatenative
