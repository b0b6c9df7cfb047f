import Concatenative.Library
import Concatenative.Machine.Question
import Concatenative.Proofs.Machine.History
import Concatenative.Proofs.Machine.Rewinding
import Concatenative.Proofs.Machine.Steps

/-!
# Failure outside protected regions

An atom that fails outside every protected region leaves the machine as it was: its stacks, its
dictionary and its recovery stack are restored, and its host has not been called.
-/

namespace Concatenative
namespace Machine

variable {σ : Type}

/-- The calls to the host so far, latest first. -/
def calls (machine : Machine σ) : List Event :=
  machine.log.filter fun event => !event.isTrace

/-- Two machines have the same stacks, bindings and snapshots, and between them the host was not
called. They may differ in the lines of the trace and in the journal. -/
structure Untouched (before after : Machine σ) : Prop where
  /-- The data stack is the same. -/
  data : after.data = before.data
  /-- The code stack is the same. -/
  code : after.code = before.code
  /-- Names mean the same. -/
  dictionary : after.dictionary = before.dictionary
  /-- The same protected regions are open. -/
  recovery : after.recovery = before.recovery
  /-- The host is in the same state. -/
  world : after.world = before.world
  /-- No call was made. -/
  calls : after.calls = before.calls

theorem Untouched.trans
    {before middle after : Machine σ}
    (earlier : before.Untouched middle)
    (later : middle.Untouched after) :
    before.Untouched after where
  data := later.data.trans earlier.data
  code := later.code.trans earlier.code
  dictionary := later.dictionary.trans earlier.dictionary
  recovery := later.recovery.trans earlier.recovery
  world := later.world.trans earlier.world
  calls := later.calls.trans earlier.calls

/-- The machine after an atom failed: the atom is back on the code stack. -/
def withdrawn (name : String) (rest : List Word) (machine : Machine σ) : Machine σ :=
  { machine.begun name rest with code := .atom name :: rest }

variable {host : Host σ} {machine failed : Machine σ}
variable {name : String} {rest : List Word} {error : EvalError}

theorem calls_begun : (machine.begun name rest).calls = machine.calls := by
  cases tracing : machine.tracing <;>
    simp [begun, trace, note, mapStacks, calls, Event.isTrace, tracing]

theorem withdrawn_untouched (next : machine.code = .atom name :: rest) :
    machine.Untouched (machine.withdrawn name rest) where
  data := data_begun
  code := next.symm
  dictionary := dictionary_begun
  recovery := recovery_begun
  world := world_begun
  calls := calls_begun

/-- Beginning again differs from beginning only in the trace. -/
theorem begun_withdrawn :
    (machine.withdrawn name rest).begun name rest =
      { machine.begun name rest with
        log := ((machine.withdrawn name rest).begun name rest).log } := by
  cases tracing : machine.tracing <;>
    simp [begun, withdrawn, trace, note, mapStacks, Stacks.commit, tracing]

/-- A step that fails outside all protected regions is taken back. -/
theorem step_withdraws
    (unprotected : machine.recovery = [])
    (next : machine.code = .atom name :: rest)
    (failure : Action.execute host name (machine.begun name rest) = .error (.eval error) failed) :
    machine.step host = .ended (.error (.eval error) (machine.withdrawn name rest)) := by
  have rewinds := (Action.execute_staged host name).rewinds failure
  have regions : failed.recovery = [] := by
    rw [rewinds.recovery_eq, recovery_begun, unprotected]
  have rolledBack := rewinds.undoable.rollback journal_begun
  rw [step_of_failure_outside next failure regions]
  simp only [abandon, rolledBack]
  rw [rewinds.frame]
  simp only [withdrawn, code_begun]

/-- An atom that fails outside all protected regions ends the run, whatever the fault. -/
theorem exists_ended_of_failure
    {fault : Fault}
    (unprotected : machine.recovery = [])
    (next : machine.code = .atom name :: rest)
    (failure : Action.execute host name (machine.begun name rest) = .error fault failed) :
    ∃ final, machine.step host = .ended (.error fault final) := by
  cases fault with
  | eval error => exact ⟨_, step_withdraws unprotected next failure⟩
  | flawed | oversized | host | nullCharacter | interrupted | badIndex | undo =>
      exact ⟨failed, step_of_foreign_fault next failure (by simp)⟩

/-- A run that fails because of the program stops at an atom outside all protected regions, and the
step of that atom is taken back. -/
theorem exists_failure_of_step
    {final : Machine σ}
    (ended : machine.step host = .ended (.error (.eval error) final)) :
    ∃ name rest failed,
      machine.code = .atom name :: rest ∧
      machine.recovery = [] ∧
      Action.execute host name (machine.begun name rest) = .error (.eval error) failed ∧
      final = machine.withdrawn name rest := by
  have takes := step_takes host machine
  rw [ended] at takes
  generalize outcome : Progress.ended (.error (.eval error) final) = progress at takes
  cases takes with
  | abandoned name rest cause failed next failure regions =>
      have rewinds := (Action.execute_staged host name).rewinds failure
      rw [rewinds.recovery_eq, recovery_begun] at regions
      rw [step_withdraws regions next failure] at ended
      cases ended
      exact ⟨name, rest, failed, next, regions, failure, rfl⟩
  | broken name rest fault failed next failure foreign =>
      cases outcome
      exact absurd rfl (foreign error)
  | finished | shifted | executed | recovered => cases outcome

/-- An atom that fails outside all protected regions ends the run with the machine untouched, and
the host not called. Running again at once fails in the same way. -/
theorem run_failing_atom
    (unprotected : machine.recovery = [])
    (next : machine.code = .atom name :: rest)
    (failure : Action.execute host name (machine.begun name rest) = .error (.eval error) failed) :
    ∃ final again,
      (∀ steps, run host (steps + 1) machine = some (.error (.eval error) final)) ∧
      machine.Untouched final ∧
      (∀ steps, run host (steps + 1) final = some (.error (.eval error) again)) ∧
      machine.Untouched again := by
  have untouched := withdrawn_untouched next
  obtain ⟨failedAgain, failureAgain⟩ := Action.execute_fails_withLog failure
    ((machine.withdrawn name rest).begun name rest).log
  rw [← begun_withdrawn] at failureAgain
  refine ⟨_, _, run_of_ended (step_withdraws unprotected next failure), untouched,
    run_of_ended (step_withdraws (untouched.recovery.trans unprotected) rfl failureAgain), ?_⟩
  exact untouched.trans (withdrawn_untouched rfl)

/-- Filling a template of two names with one value fails after three words have been popped. -/
theorem run_failing_expand :
    let machine : Machine Answer :=
      { Library.bare true {} with
        data := [.list [.atom "x", .atom "y"], .list [.atom "y", .atom "x"], .int 1]
        code := [.atom "expand", .int 5] }
    ∃ final again,
      (∀ steps, run Answer.host (steps + 1) machine =
        some (.error (.eval .stackUnderflow) final)) ∧
      machine.Untouched final ∧
      (∀ steps, run Answer.host (steps + 1) final =
        some (.error (.eval .stackUnderflow) again)) ∧
      machine.Untouched again := by
  intro machine
  exact run_failing_atom rfl rfl rfl

end Machine
end Concatenative
