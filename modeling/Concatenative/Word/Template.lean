import Concatenative.Record
import Concatenative.Word.Basic

/-!
# Templates

A template is a word in which some atoms stand for values. Filling it replaces those atoms at once,
inside nested lists too; the values put in are not searched again, and dicts are left alone.
-/

namespace Concatenative
namespace Word

mutual

/-- Fill a template: each atom that the record names becomes its value. -/
def expand (values : Record Word) : Word → Word
  | atom name => (values.get? name).getD (atom name)
  | list items => list (expandEach values items)
  | word => word
termination_by structural template => template

/-- Fill each template of a sequence. -/
def expandEach (values : Record Word) : List Word → List Word
  | [] => []
  | item :: rest => expand values item :: expandEach values rest
termination_by structural templates => templates

end

theorem expandEach_eq_map (values : Record Word) (items : List Word) :
    expandEach values items = items.map (expand values) := by
  induction items with
  | nil => rfl
  | cons item rest inductionHypothesis => simp [expandEach, inductionHypothesis]

end Word
end Concatenative
