import Concatenative.Builtin
import Concatenative.Source.Program
import Concatenative.Word.Display

/-!
# The catalogue and the demonstration

Two texts by which the language presents itself: the built-in words that work on data with their
stack effects, and a small program laid out word by word.
-/

namespace Concatenative
namespace Catalogue

/-- The lines of the catalogue of built-in words. -/
def listing : List String :=
  ["backforth Standard Library",
    String.ofList (List.replicate 30 '='),
    "Available functions: " ++ Builtin.dataWords.length.repr] ++
  Builtin.dataWords.map fun builtin =>
    "  " ++ builtin.name ++ ": " ++ builtin.effect.describe

/-- The demonstrated program, which defines the factorial and applies it. -/
def program : String :=
  "\n".intercalate
    ["",
      "    # factorial",
      "    fact = { if > 2 pick 2 { drop ; 1 } { * fact + -1 dup } }",
      "    fact 5",
      "    "]

/-- The lines of the demonstration. -/
def demonstration : List String :=
  match Source.parse program with
  | .ok words => ["Program parse result:", (Word.list words).pretty 0]
  | .error (.flawed error) => [error.describe]
  | .error (.oversized _) => []

end Catalogue
end Concatenative
