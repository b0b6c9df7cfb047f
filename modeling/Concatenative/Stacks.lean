import Concatenative.Error

/-!
# The two stacks and the journal

A machine works on a data stack and a code stack. Every change that a step makes to them is written
into a journal, from which `rollback` takes the changes back, latest first.
-/

namespace Concatenative

/-! ## Indices

An index counts from the top of a stack if it is not negative, and from the bottom otherwise: zero
is the top and minus one the bottom. -/

/-- The word at an index, if there is one. -/
def wordAt? : (index : Int) → List Word → Option Word
  | .ofNat count, words => words[count]?
  | .negSucc count, words => words.reverse[count]?

/-- The words but for the one at an index. -/
def without : (index : Int) → List Word → List Word
  | .ofNat count, words => words.eraseIdx count
  | .negSucc count, words => (words.reverse.eraseIdx count).reverse

/-- The words with one more at an index: as many words are above it as a nonnegative index says, and
as many below it as a negative one says, or all if there are not as many. -/
def insertAt (word : Word) : (index : Int) → List Word → List Word
  | .ofNat count, words => words.take count ++ word :: words.drop count
  | .negSucc count, words =>
    (words.reverse.take (count + 1) ++ word :: words.reverse.drop (count + 1)).reverse

theorem insertAt_without
    {index : Nat}
    {word : Word}
    {words : List Word}
    (found : wordAt? index words = some word) :
    insertAt word index (without index words) = words := by
  obtain ⟨bound, rfl⟩ := List.getElem?_eq_some_iff.mp found
  have width : (words.take index).length = index := by
    rw [List.length_take]
    omega
  have above : (words.eraseIdx index).take index = words.take index := by
    rw [List.eraseIdx_eq_take_drop_succ]
    exact List.take_left' width
  have below : (words.eraseIdx index).drop index = words.drop (index + 1) := by
    rw [List.eraseIdx_eq_take_drop_succ]
    exact List.drop_left' width
  change (words.eraseIdx index).take index ++ words[index] :: (words.eraseIdx index).drop index =
    words
  simp [above, below]

/-! ## Changes -/

/-- A change of one of the stacks, with what is needed to take it back. -/
inductive Change where
  /-- A word was pushed on the data stack. -/
  | pushed
  /-- A word was popped from the data stack. -/
  | popped (word : Word)
  /-- A word was removed from within the data stack. -/
  | removed (index : Int) (word : Word)
  /-- The data stack was emptied. -/
  | cleared (words : List Word)
  /-- A word was taken from the code stack. -/
  | taken (word : Word)
  /-- A word was put on the code stack. -/
  | put
  /-- A number of words was loaded onto the code stack. -/
  | loaded (count : Nat)
  deriving DecidableEq

/-- The two stacks and the journal of their changes. -/
structure Stacks where
  /-- The data stack, top first. -/
  data : List Word := []
  /-- The code stack, next word first. -/
  code : List Word := []
  /-- The changes, latest first. -/
  journal : List Change := []
  deriving DecidableEq

namespace Stacks

/-- Push a word on the data stack. -/
def push (word : Word) (state : Stacks) : Stacks :=
  { state with
    data := word :: state.data
    journal := .pushed :: state.journal }

/-- Pop a word from the data stack, if there is one. -/
def pop? (state : Stacks) : Option (Word × Stacks) :=
  match state.data with
  | [] => none
  | word :: rest =>
    some (word, { state with data := rest, journal := .popped word :: state.journal })

/-- The word at an index of the data stack, if there is one. -/
def entry? (index : Int) (state : Stacks) : Option Word :=
  wordAt? index state.data

/-- Remove the word at an index of the data stack, if there is one. -/
def removeAt? (index : Int) (state : Stacks) : Option (Word × Stacks) :=
  match state.entry? index with
  | none => none
  | some word =>
    some (word,
      { state with
        data := without index state.data
        journal := .removed index word :: state.journal })

/-- Empty the data stack. -/
def clearData (state : Stacks) : Stacks :=
  { state with data := [], journal := .cleared state.data :: state.journal }

/-- Take the next word from the code stack, if there is one. -/
def take? (state : Stacks) : Option (Word × Stacks) :=
  match state.code with
  | [] => none
  | word :: rest =>
    some (word, { state with code := rest, journal := .taken word :: state.journal })

/-- Put a word on the code stack. -/
def put (word : Word) (state : Stacks) : Stacks :=
  { state with
    code := word :: state.code
    journal := .put :: state.journal }

/-- Load words onto the code stack; the last of them runs first. -/
def load (words : List Word) (state : Stacks) : Stacks :=
  { state with
    code := words.reverse ++ state.code
    journal := .loaded words.length :: state.journal }

/-- How many words are taken off a code stack of a depth to take back the loading of `count` words.
Where fewer than `count` are left, the missing ones are counted off instead. -/
def unloadCount (count depth : Nat) : Nat :=
  if count ≤ depth then count else count - depth

/-- Take one change back. -/
def undo (state : Stacks) : Change → Except UndoError Stacks
  | .pushed =>
    match state.data with
    | [] => .error .noData
    | _ :: rest => .ok { state with data := rest }
  | .popped word => .ok { state with data := word :: state.data }
  | .removed index word => .ok { state with data := insertAt word index state.data }
  | .cleared words => .ok { state with data := state.data ++ words }
  | .taken word => .ok { state with code := word :: state.code }
  | .put =>
    match state.code with
    | [] => .error .noCode
    | _ :: rest => .ok { state with code := rest }
  | .loaded count =>
    .ok { state with code := state.code.drop (unloadCount count state.code.length) }

/-- Take changes back in turn, up to the first that cannot be taken back. -/
def undoAll (state : Stacks) : List Change → Stacks × Option UndoError
  | [] => (state, none)
  | change :: rest =>
    match state.undo change with
    | .ok earlier => earlier.undoAll rest
    | .error error => (state, some error)

/-- Take the changes of the journal back, latest first, and forget them. If one cannot be taken
back, those after it stay taken back and the journal stays as it is. -/
def rollback (state : Stacks) : Stacks × Option UndoError :=
  match state.undoAll state.journal with
  | (earlier, none) => ({ earlier with journal := [] }, none)
  | (earlier, some error) => (earlier, some error)

/-- Forget the changes made so far. -/
def commit (state : Stacks) : Stacks :=
  { state with journal := [] }

/-! ## Taking one change back -/

theorem undo_push (word : Word) (state : Stacks) :
    (state.push word).undo .pushed =
      .ok { state with journal := (state.push word).journal } := rfl

theorem undo_pop
    {word : Word}
    {state after : Stacks}
    (popped : state.pop? = some (word, after)) :
    after.undo (.popped word) = .ok { state with journal := after.journal } := by
  unfold pop? at popped
  split at popped
  · cases popped
  · rename_i top rest data
    cases popped
    simp [undo, data]

theorem undo_removeAt
    {index : Nat}
    {word : Word}
    {state after : Stacks}
    (removed : state.removeAt? index = some (word, after)) :
    after.undo (.removed index word) = .ok { state with journal := after.journal } := by
  unfold removeAt? at removed
  split at removed
  · cases removed
  · rename_i found entry
    cases removed
    simp [undo, insertAt_without entry]

theorem undo_clearData (state : Stacks) :
    state.clearData.undo (.cleared state.data) =
      .ok { state with journal := state.clearData.journal } := rfl

theorem undo_take
    {word : Word}
    {state after : Stacks}
    (taken : state.take? = some (word, after)) :
    after.undo (.taken word) = .ok { state with journal := after.journal } := by
  unfold take? at taken
  split at taken
  · cases taken
  · rename_i next rest code
    cases taken
    simp [undo, code]

theorem undo_put (word : Word) (state : Stacks) :
    (state.put word).undo .put = .ok { state with journal := (state.put word).journal } := rfl

theorem undo_load (words : List Word) (state : Stacks) :
    (state.load words).undo (.loaded words.length) =
      .ok { state with journal := (state.load words).journal } := by
  simp [undo, load, unloadCount]

end Stacks
end Concatenative
