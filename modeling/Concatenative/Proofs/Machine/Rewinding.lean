import Concatenative.Proofs.Machine.Staging

/-!
# Taking a failed action back

The journal of a machine says how to take the changes of its stacks back. `Rewinds` relates two
states of which the later one can be taken back to the earlier one. The first stage of an action
always leads to such a state, and the second stage does not fail because of the program. So whenever
an action fails because of the program, its changes can be taken back, and it has changed nothing
but the stacks.
-/

namespace Concatenative
namespace Stacks

/-- Taking changes back, latest first, leads from the later state to the earlier one. -/
inductive Rewinds (before : Stacks) : Stacks → Prop where
  | refl : Rewinds before before
  | step {middle after : Stacks} {change : Change} :
      Rewinds before middle →
      after.journal = change :: middle.journal →
      after.undo change = .ok { middle with journal := after.journal } →
      Rewinds before after

theorem Rewinds.trans
    {before middle after : Stacks}
    (earlier : before.Rewinds middle)
    (later : middle.Rewinds after) :
    before.Rewinds after := by
  induction later with
  | refl => exact earlier
  | step _ journal undone inductionHypothesis => exact .step inductionHypothesis journal undone

/-- What a change is taken back to does not depend on the journal. -/
theorem undo_withJournal
    {state earlier : Stacks}
    {change : Change}
    (undone : state.undo change = .ok earlier)
    (journal : List Change) :
    { state with journal }.undo change = .ok { earlier with journal } := by
  cases change with
  | pushed =>
      cases data : state.data with
      | nil => simp [undo, data] at undone
      | cons word rest =>
          simp only [undo, data, Except.ok.injEq] at undone ⊢
          rw [← undone]
  | put =>
      cases code : state.code with
      | nil => simp [undo, code] at undone
      | cons word rest =>
          simp only [undo, code, Except.ok.injEq] at undone ⊢
          rw [← undone]
  | popped | removed | cleared | taken | loaded =>
      simp only [undo, Except.ok.injEq] at undone ⊢
      rw [← undone]

/-- The changes between two states are on top of the journal of the later one. -/
theorem Rewinds.undoAll
    {before after : Stacks}
    (rewinds : before.Rewinds after)
    (journal : List Change) :
    ∃ changes,
      after.journal = changes ++ before.journal ∧
        { after with journal }.undoAll changes = ({ before with journal }, none) := by
  -- Rolling back empties the journal at its end only, so the states on the way all have the
  -- journal of the last one.
  induction rewinds with
  | refl => exact ⟨[], rfl, rfl⟩
  | @step middle after change _ latest undone inductionHypothesis =>
      obtain ⟨changes, earlier, restored⟩ := inductionHypothesis
      refine ⟨change :: changes, by rw [latest, earlier, List.cons_append], ?_⟩
      have first := undo_withJournal undone journal
      simp only [Stacks.undoAll, first]
      exact restored

/-- Rolling back leads to the state at which the journal was empty. -/
theorem Rewinds.rollback
    {before after : Stacks}
    (rewinds : before.Rewinds after)
    (committed : before.journal = []) :
    after.rollback = (before, none) := by
  obtain ⟨changes, journal, restored⟩ := rewinds.undoAll after.journal
  rw [committed, List.append_nil] at journal
  have all : after.undoAll after.journal = ({ before with journal := after.journal }, none) := by
    rw [← journal] at restored
    exact restored
  simp only [Stacks.rollback, all]
  rw [← committed]

end Stacks

/-- The changes between two machines are changes of the stacks, and can be taken back. -/
structure Machine.Rewinds {σ : Type} (before after : Machine σ) : Prop where
  /-- The stacks can be taken back. -/
  undoable : before.toStacks.Rewinds after.toStacks
  /-- Nothing else has changed. -/
  frame : after = { before with toStacks := after.toStacks }

namespace Machine.Rewinds

variable {σ : Type} {before middle after : Machine σ}

theorem refl (machine : Machine σ) : machine.Rewinds machine :=
  ⟨.refl, rfl⟩

theorem trans
    (earlier : before.Rewinds middle)
    (later : middle.Rewinds after) :
    before.Rewinds after := by
  refine ⟨earlier.undoable.trans later.undoable, ?_⟩
  rw [later.frame, earlier.frame]

/-- A single change of the stacks. -/
theorem single
    {state : Stacks}
    {change : Change}
    (journal : state.journal = change :: before.journal)
    (undone : state.undo change = .ok { before.toStacks with journal := state.journal }) :
    before.Rewinds { before with toStacks := state } :=
  ⟨.step .refl journal undone, rfl⟩

theorem recovery_eq (rewinds : before.Rewinds after) :
    after.recovery = before.recovery := by
  rw [rewinds.frame]

end Machine.Rewinds

namespace Action

variable {σ : Type} {α : Type}

/-- What an action does can be taken back, whether it fails or not. -/
def Revocable (action : Action σ α) : Prop :=
  Relates Machine.Rewinds action

theorem Revocable.ofStacks
    {error : EvalError}
    {change : Stacks → Option (Word × Stacks)}
    (undoing : Word → Change)
    (journaled : ∀ state word after, change state = some (word, after) →
      after.journal = undoing word :: state.journal ∧
        after.undo (undoing word) = .ok { state with journal := after.journal }) :
    Revocable (ofStacks error change : Action σ Word) := by
  intro machine
  cases result : change machine.toStacks with
  | none =>
      simp only [leaves, Action.ofStacks, result]
      exact .refl machine
  | some both =>
      obtain ⟨journal, undone⟩ := journaled _ _ _ result
      simp only [leaves, Action.ofStacks, result]
      exact .single journal undone

theorem ofHost_ne_eval
    (attempt : String)
    (answer : Except HostError String)
    (machine failed : Machine σ)
    (error : EvalError) :
    ofHost attempt answer machine ≠ .error (.eval error) failed := by
  cases answer with
  | ok text => rintro ⟨⟩
  | error cause => cases cause <;> rintro ⟨⟩

theorem pop_revocable : Revocable (pop : Action σ Word) := by
  refine .ofStacks .popped fun state word after popped => ⟨?_, Stacks.undo_pop popped⟩
  unfold Stacks.pop? at popped
  split at popped
  · cases popped
  · cases popped
    rfl

theorem takeCode_revocable : Revocable (takeCode : Action σ Word) := by
  refine .ofStacks .taken fun state word after taken => ⟨?_, Stacks.undo_take taken⟩
  unfold Stacks.take? at taken
  split at taken
  · cases taken
  · cases taken
    rfl

theorem lookup_revocable (name : String) : Revocable (lookup name : Action σ Binding) := by
  intro machine
  have unchanged : (lookup name).leaves machine = machine := by
    cases found : machine.dictionary.get? name with
    | none => simp only [leaves, lookup_of_none found]
    | some binding => simp only [leaves, lookup_of_some found]
  rw [unchanged]
  exact .refl machine

/-- Whatever the first stage does can be taken back. -/
theorem Tentative.revocable
    {powers : Powers}
    {action : Action σ α}
    (tentative : Tentative powers action) :
    Revocable action := by
  induction tentative with
  | pure value => exact fun machine => .refl machine
  | throw fault => exact fun machine => .refl machine
  | dataStack => exact fun machine => .refl machine
  | lookup name => exact lookup_revocable name
  | pop => exact pop_revocable
  | takeCode => exact takeCode_revocable
  | push word => exact fun machine => .single rfl (Stacks.undo_push word _)
  | putCode word => exact fun machine => .single rfl (Stacks.undo_put word _)
  | loadCode words => exact fun machine => .single rfl (Stacks.undo_load words _)
  | clearData => exact fun machine => .single rfl (Stacks.undo_clearData _)
  | bind _ _ firstRevocable nextRevocable =>
      exact Relates.bind (fun _ _ _ => .trans) firstRevocable nextRevocable

/-- The second stage does not fail because of the program. -/
theorem Concluding.ne_eval
    {host : Host σ}
    {powers : Powers}
    {action : Action σ α}
    (concluding : Concluding host powers action)
    (machine failed : Machine σ)
    (error : EvalError) :
    action machine ≠ .error (.eval error) failed := by
  induction concluding generalizing machine with
  | pure | interrupt | codeStack | push | putCode | loadCode | define | halt | enterRegion
  | leaveRegion | echo =>
      rintro ⟨⟩
  | prompt text => rintro ⟨⟩
  | load path => exact ofHost_ne_eval _ _ _ _ _
  | command name args => exact ofHost_ne_eval _ _ _ _ _
  | bind _ _ firstHypothesis nextHypothesis =>
      intro failure
      rcases bind_eq_error failure with early | ⟨value, middle, _, late⟩
      · exact firstHypothesis machine early
      · exact nextHypothesis value middle late

/-- Moving an entry that is not there changes nothing. -/
theorem move_rewinds
    {index : Int}
    {machine failed : Machine σ}
    {error : EvalError}
    (failure : (removeAt index >>= push) machine = .error (.eval error) failed) :
    machine.Rewinds failed := by
  rcases bind_eq_error failure with early | ⟨_, _, _, late⟩
  · cases removed : machine.toStacks.removeAt? index with
    | none =>
        simp only [removeAt, removed] at early
        have tentative : Tentative {} (failAt index : Action σ Word) := .failAt index
        have revoked := tentative.revocable machine
        simpa only [leaves, early] using revoked
    | some both => simp only [removeAt, removed, reduceCtorEq] at early
  · cases late

/-- An action that fails because of the program has changed the stacks alone, and its changes can
be taken back. -/
theorem Staged.rewinds
    {host : Host σ}
    {powers : Powers}
    {action : Action σ Unit}
    {machine failed : Machine σ}
    {error : EvalError}
    (staged : Staged host powers action)
    (failure : action machine = .error (.eval error) failed) :
    machine.Rewinds failed := by
  induction staged generalizing machine with
  | tentative tentative =>
      have revoked := tentative.revocable machine
      simpa only [leaves, failure] using revoked
  | concluding concluding => exact absurd failure (concluding.ne_eval machine failed error)
  | move index => exact move_rewinds failure
  | bind tentative _ inductionHypothesis =>
      have revoked := tentative.revocable machine
      rcases bind_eq_error failure with early | ⟨value, middle, done, late⟩
      · simpa only [leaves, early] using revoked
      · simp only [leaves, done] at revoked
        exact revoked.trans (inductionHypothesis value late)

end Action
end Concatenative
