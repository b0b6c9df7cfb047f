import Concatenative.Proofs.Machine.Rewinding

/-!
# Sequences of calls

Built-in words change the stacks of a machine by seven calls only, and each call writes into the
journal how its change is taken back. Whatever calls are made one after the other, and whether or
not they fail, the journal leads back to the stacks on which the first of them was made.
-/

namespace Concatenative

/-- A call that changes the stacks of a machine. -/
inductive StackCall where
  /-- Push a word on the data stack. -/
  | push (word : Word)
  /-- Pop a word from the data stack. -/
  | pop
  /-- Remove the word at an index of the data stack. -/
  | removeAt (index : Nat)
  /-- Empty the data stack. -/
  | clearData
  /-- Take the next word from the code stack. -/
  | takeCode
  /-- Put a word on the code stack. -/
  | putCode (word : Word)
  /-- Load words onto the code stack. -/
  | loadCode (words : List Word)
  deriving DecidableEq

namespace StackCall

variable {σ : Type}

/-- What the call does; the word that it gives is not used. -/
def action : StackCall → Action σ Unit
  | .push word => Action.push word
  | .pop => do let _ ← Action.pop
  | .removeAt index => do let _ ← Action.removeAt index
  | .clearData => Action.clearData
  | .takeCode => do let _ ← Action.takeCode
  | .putCode word => Action.putCode word
  | .loadCode words => Action.loadCode words

/-- The machine after calls that were made in turn, those after a failed one too. -/
def leftBy (calls : List StackCall) (machine : Machine σ) : Machine σ :=
  calls.foldl (fun machine call => call.action.leaves machine) machine

end StackCall

namespace Action

variable {σ : Type}

theorem Revocable.discard
    {action : Action σ Word}
    (revocable : Revocable action) :
    Revocable (do let _ ← action : Action σ Unit) :=
  Relates.bind (fun _ _ _ => .trans) revocable fun _ machine => .refl machine

/-- Removing a word can be taken back, and so can the attempt to remove one that is not there. -/
theorem removeAt_revocable (index : Nat) : Revocable (removeAt index : Action σ Word) := by
  intro machine
  cases removed : machine.toStacks.removeAt? index with
  | none =>
      have refused : removeAt index machine = .error (.eval .stackUnderflow) machine := by
        simp only [removeAt, removed, failAt, Int.natCast_nonneg, if_pos]
        rfl
      rw [leaves_of_error refused]
      exact .refl machine
  | some both =>
      obtain ⟨word, state⟩ := both
      have journal : state.journal = .removed index word :: machine.journal := by
        unfold Stacks.removeAt? at removed
        split at removed
        · cases removed
        · cases removed
          rfl
      simp only [leaves, removeAt, removed]
      exact .single journal (Stacks.undo_removeAt removed)

end Action

namespace StackCall

variable {σ : Type}

/-- What a call does can be taken back, whether it fails or not. -/
theorem revocable (call : StackCall) : Action.Revocable (call.action : Action σ Unit) := by
  cases call with
  | push word => exact fun machine => .single rfl (Stacks.undo_push word _)
  | pop => exact Action.pop_revocable.discard
  | removeAt index => exact (Action.removeAt_revocable index).discard
  | clearData => exact fun machine => .single rfl (Stacks.undo_clearData _)
  | takeCode => exact Action.takeCode_revocable.discard
  | putCode word => exact fun machine => .single rfl (Stacks.undo_put word _)
  | loadCode words => exact fun machine => .single rfl (Stacks.undo_load words _)

/-- The changes of calls that were made in turn can be taken back together. -/
theorem rewinds_leftBy (calls : List StackCall) (machine : Machine σ) :
    machine.Rewinds (leftBy calls machine) := by
  induction calls generalizing machine with
  | nil => exact .refl machine
  | cons call later inductionHypothesis =>
      have first := call.revocable machine
      exact first.trans (inductionHypothesis (call.action.leaves machine))

/-- Whatever calls were made since the journal was empty, rolling back restores the machine: both
stacks are what they were, the journal is empty, and nothing else has changed. -/
theorem rollback_leftBy
    {machine : Machine σ}
    (committed : machine.journal = [])
    (calls : List StackCall) :
    Action.rollback (leftBy calls machine) = .ok () machine := by
  have rewinds := rewinds_leftBy calls machine
  have restored := rewinds.undoable.rollback committed
  simp only [Action.rollback, restored]
  rw [rewinds.frame]

/-- The data stack is emptied between two pushes, a word within it is removed after a loading, and
two of the calls fail. -/
theorem rollback_leftBy_interleaved :
    let machine : Machine Unit :=
      { data := [.int 1, .int 2, .int 3]
        code := [.atom "a", .atom "b"]
        dictionary := []
        world := () }
    let calls : List StackCall :=
      [.push (.int 4), .clearData, .pop, .push (.int 5), .loadCode [.atom "c", .atom "d"],
        .push (.int 6), .removeAt 1, .removeAt 1, .takeCode, .putCode (.atom "e")]
    (leftBy calls machine).data = [.int 6] ∧
      (leftBy calls machine).code = [.atom "e", .atom "c", .atom "a", .atom "b"] ∧
      (leftBy calls machine).journal.length = 8 ∧
      Action.rollback (leftBy calls machine) = .ok () machine := by
  intro machine calls
  exact ⟨rfl, rfl, rfl, rollback_leftBy rfl calls⟩

end StackCall
end Concatenative
