/-!
# Records

A record is a finite map from names to values that remembers the order in which its names first
appeared. Overwriting a name changes its value and not its place.
-/

namespace Concatenative

/-- Named values in the order of their first appearance. -/
abbrev Record (α : Type) := List (String × α)

namespace Record

variable {α : Type}

/-- The value that a record gives to a name. -/
def get? (record : Record α) (name : String) : Option α :=
  record.lookup name

/-- The record with a name set to a value: in its old place if the record has the name, at the
end otherwise. -/
def put (name : String) (value : α) : Record α → Record α
  | [] => [(name, value)]
  | (key, old) :: rest =>
    if key = name then (key, value) :: rest else (key, old) :: put name value rest

/-- The record that results from setting each pair in turn. -/
def ofPairs (pairs : List (String × α)) : Record α :=
  pairs.foldl (fun record (name, value) => put name value record) []

/-- The names of a record, in its order. -/
def names (record : Record α) : List String :=
  record.map Prod.fst

@[simp] theorem get?_nil (name : String) :
    get? ([] : Record α) name = none := rfl

theorem get?_cons (key : String) (value : α) (rest : Record α) (name : String) :
    get? ((key, value) :: rest) name = if key = name then some value else get? rest name := by
  by_cases same : key = name
  · subst same
    simp [get?]
  · have different : (name == key) = false := by simpa using fun equal => same equal.symm
    simp [get?, List.lookup_cons, different, same]

/-- A value that a record gives to a name is in the record. -/
theorem mem_of_get?
    {record : Record α}
    {name : String}
    {value : α}
    (found : get? record name = some value) :
    (name, value) ∈ record := by
  induction record with
  | nil => cases found
  | cons entry rest inductionHypothesis =>
      obtain ⟨key, old⟩ := entry
      rw [get?_cons] at found
      split at found
      · rename_i same
        cases found
        rw [same]
        exact List.mem_cons_self
      · exact List.mem_cons_of_mem _ (inductionHypothesis found)

/-- Reading the name just set gives its value. -/
@[simp] theorem get?_put_self (name : String) (value : α) (record : Record α) :
    get? (put name value record) name = some value := by
  induction record with
  | nil => simp [put, get?_cons]
  | cons entry rest inductionHypothesis =>
      obtain ⟨key, old⟩ := entry
      by_cases same : key = name <;> simp [put, get?_cons, same, inductionHypothesis]

/-- Setting a name leaves the other names alone. -/
theorem get?_put_of_ne
    {name other : String}
    (value : α)
    (record : Record α)
    (different : name ≠ other) :
    get? (put name value record) other = get? record other := by
  induction record with
  | nil => simp [put, get?_cons, different]
  | cons entry rest inductionHypothesis =>
      obtain ⟨key, old⟩ := entry
      by_cases same : key = name
      · subst same
        simp [put, get?_cons, different]
      · simp [put, get?_cons, same, inductionHypothesis]

end Record
end Concatenative
