import Concatenative.Record
import Concatenative.Word.Basic

/-!
# Agreement of words

Agreement is the comparison that the language itself offers. Words that hold no dict agree when
they are identical. A dict agrees with another when each of its entries is found there, and the
value found there agrees with the value of the entry: the sides change at every dict, so the
containment of nested dicts runs the other way. Lists compare item by item and keep the sides.
-/

namespace Concatenative
namespace Word

mutual

/-- Whether `first` agrees with `second`, or, with the sides changed, `second` with `first`. -/
def agreesFrom (changed : Bool) : Word → Word → Bool
  | atom a, atom b => a = b
  | int a, int b => a = b
  | hex a, hex b => a = b
  | str a, str b => a = b
  | list as, list bs => agreeFrom changed as bs
  | dict as, dict bs => if changed then bs.all fun entry => findsIn as entry else foundIn as bs
  | _, _ => false
termination_by structural first => first

/-- Item by item comparison of two sequences. -/
def agreeFrom (changed : Bool) : List Word → List Word → Bool
  | [], [] => true
  | a :: as, b :: bs => agreesFrom changed a b && agreeFrom changed as bs
  | _, _ => false
termination_by structural first => first

/-- Whether each entry of the first dict is found in the second. -/
def foundIn : List (String × Word) → List (String × Word) → Bool
  | [], _ => true
  | entry :: rest, others => entryFoundIn entry others && foundIn rest others
termination_by structural first => first

/-- Whether an entry of the first dict is found in the second. -/
def entryFoundIn : String × Word → List (String × Word) → Bool
  | (name, value), others =>
    match Record.get? others name with
    | none => false
    | some other => agreesFrom true value other
termination_by structural first => first

/-- Whether the first dict has an entry of the second one. -/
def findsIn : List (String × Word) → String × Word → Bool
  | [], _ => false
  | entry :: rest, other => (entryFinds entry other).getD (findsIn rest other)
termination_by structural first => first

/-- Compare an entry with another of the same name. -/
def entryFinds : String × Word → String × Word → Option Bool
  | (name, value), (otherName, other) =>
    if name = otherName then some (agreesFrom false value other) else none
termination_by structural first => first

end

/-- The comparison of the language: `first` agrees with `second`. -/
def agrees (first second : Word) : Bool :=
  agreesFrom false first second

/-- Item by item agreement of two sequences of words. -/
def agreeAll (first second : List Word) : Bool :=
  agreeFrom false first second

end Word
end Concatenative
