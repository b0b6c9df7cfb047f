/-!
# Words

A word is a value of the language and also the unit of its code: a program is a sequence of words.
An atom names something to run. Every other word stands for itself.
-/

namespace Concatenative

/-- A value, and a unit of code. -/
inductive Word where
  /-- A name. -/
  | atom (name : String)
  /-- A signed integer. -/
  | int (value : Int)
  /-- An integer that is written in base sixteen. No program makes a negative one. -/
  | hex (value : Int)
  /-- A piece of text. -/
  | str (text : String)
  /-- A sequence of words, which is also how a piece of code is passed around. -/
  | list (items : List Word)
  /-- Named words, in the order in which their names first appeared. -/
  | dict (entries : List (String × Word))
  deriving Inhabited

namespace Word

/-- The six kinds of word. -/
inductive Kind where
  | atom
  | int
  | hex
  | str
  | list
  | dict
  deriving DecidableEq

/-- What a kind is called in messages. -/
def Kind.name : Kind → String
  | .atom => "atom"
  | .int => "integer"
  | .hex => "hex"
  | .str => "string"
  | .list => "list"
  | .dict => "dict"

/-- The kind of a word. -/
def kind : Word → Kind
  | atom _ => .atom
  | int _ => .int
  | hex _ => .hex
  | str _ => .str
  | list _ => .list
  | dict _ => .dict

/-- Truth values are the integers one and zero. -/
def ofBool (flag : Bool) : Word :=
  int (if flag then 1 else 0)

/-- The word is a list. -/
def isList : Word → Bool
  | list _ => true
  | _ => false

theorem exists_items_of_isList
    {word : Word}
    (listed : word.isList = true) :
    ∃ items, word = list items := by
  cases word with
  | list items => exact ⟨items, rfl⟩
  | atom | int | hex | str | dict => cases listed

/-! ## Induction -/

/-- What holds of every word follows from what holds of the words in a list and of the values in a
dict. -/
@[elab_as_elim, induction_eliminator]
theorem induction
    {motive : Word → Prop}
    (atom : ∀ name, motive (atom name))
    (int : ∀ value, motive (int value))
    (hex : ∀ value, motive (hex value))
    (str : ∀ text, motive (str text))
    (list : ∀ items, (∀ item ∈ items, motive item) → motive (list items))
    (dict : ∀ entries, (∀ entry ∈ entries, motive entry.2) → motive (dict entries))
    (word : Word) :
    motive word :=
  @Word.rec motive
    (fun items => ∀ item ∈ items, motive item)
    (fun entries => ∀ entry ∈ entries, motive entry.2)
    (fun entry => motive entry.2)
    atom int hex str list dict
    (fun _ absent => absurd absent List.not_mem_nil)
    (fun _ _ first rest => List.forall_mem_cons.mpr ⟨first, rest⟩)
    (fun _ absent => absurd absent List.not_mem_nil)
    (fun _ _ first rest => List.forall_mem_cons.mpr ⟨first, rest⟩)
    (fun _ _ value => value)
    word

/-! ## Identity -/

mutual

/-- Whether two words are identical. -/
def same : Word → Word → Bool
  | atom a, atom b => a = b
  | int a, int b => a = b
  | hex a, hex b => a = b
  | str a, str b => a = b
  | list as, list bs => sameItems as bs
  | dict as, dict bs => sameEntries as bs
  | _, _ => false
termination_by structural first => first

/-- Whether two sequences of words are identical. -/
def sameItems : List Word → List Word → Bool
  | [], [] => true
  | a :: as, b :: bs => same a b && sameItems as bs
  | _, _ => false
termination_by structural first => first

/-- Whether two sequences of named words are identical. -/
def sameEntries : List (String × Word) → List (String × Word) → Bool
  | [], [] => true
  | a :: as, b :: bs => sameEntry a b && sameEntries as bs
  | _, _ => false
termination_by structural first => first

/-- Whether two named words are identical. -/
def sameEntry : String × Word → String × Word → Bool
  | (a, v), (b, w) => a = b && same v w
termination_by structural first => first

end

mutual

theorem same_iff : ∀ first second : Word, same first second = true ↔ first = second
  | atom a, second => by cases second <;> simp [same]
  | int a, second => by cases second <;> simp [same]
  | hex a, second => by cases second <;> simp [same]
  | str a, second => by cases second <;> simp [same]
  | list as, second => by cases second <;> simp [same, sameItems_iff as]
  | dict as, second => by cases second <;> simp [same, sameEntries_iff as]

theorem sameItems_iff : ∀ first second : List Word, sameItems first second = true ↔ first = second
  | [], second => by cases second <;> simp [sameItems]
  | a :: as, second => by cases second <;> simp [sameItems, same_iff a, sameItems_iff as]

theorem sameEntries_iff :
    ∀ first second : List (String × Word), sameEntries first second = true ↔ first = second
  | [], second => by cases second <;> simp [sameEntries]
  | a :: as, second => by cases second <;> simp [sameEntries, sameEntry_iff a, sameEntries_iff as]

theorem sameEntry_iff : ∀ first second : String × Word, sameEntry first second = true ↔ first = second
  | (a, v), (b, w) => by simp [sameEntry, same_iff v]

end

instance : DecidableEq Word := fun first second =>
  decidable_of_iff _ (same_iff first second)

end Word
end Concatenative
