import Concatenative.Machine.Run

/-!
# The library

Every machine begins with the words of the library, which is written in the language itself.
-/

namespace Concatenative
namespace Library

/-- The lines of the library. -/
def lines : List String :=
  ["#! backforth standard library",
    "dup = { pick 0 }",
    "over = { pick 1 }",
    "swap = { roll 1 }",
    "rot = { roll 2 }",
    "nip = { drop swap }",
    "not = { == 0 }",
    "exit = { bye }",
    "stack = { echo capture }",
    "loop = { eval expand { body } { eval body ; loop body } }",
    "times = { eval expand { n body } { if > n 0 { eval body ; times - n 1 body } { } } }",
    "interpret = { eval parse load }",
    "repl = \x7b loop \x7b try \x7b eval parse prompt \"> \" \x7d \x7b echo \x7d \x7d \x7d",
    ""]

/-- The text of the library. -/
def text : String :=
  "\n".intercalate lines

/-- A number of steps in which the library can be run. -/
def steps : Nat := 100

/-- The machine with the built-in words alone. -/
def bare {σ : Type} (tracing : Bool) (world : σ) : Machine σ where
  dictionary := Dictionary.builtins
  tracing := tracing
  world := world

/-- The machine after a run that came to its end, or else another one. -/
def settled {σ : Type} (otherwise : Machine σ) : Option (Outcome σ) → Machine σ
  | some (.ok () machine) => machine
  | _ => otherwise

/-- The machine after the library has been run on it. -/
def fresh {σ : Type} (host : Host σ) (tracing : Bool) (world : σ) : Machine σ :=
  settled (bare tracing world) ((bare tracing world).evaluate host steps text)

end Library
end Concatenative
