import Concatenative.Console
import Concatenative.Machine.Question
import Concatenative.Proofs.Machine.Steps

/-!
# The faults of a run

A run is interrupted by its user and by nothing else: it ends with an interrupt only where a prompt
is answered by one. Nor does it end with a flaw in a source text, since a text that the program
reads itself and that is no program makes it fail.
-/

namespace Concatenative

/-- As long as the host is in states with a property, its calls lead to such states, and no prompt
is interrupted. -/
structure Host.Undisturbed {σ : Type} (host : Host σ) (quiet : σ → Prop) : Prop where
  /-- Showing a text keeps the property. -/
  echo : ∀ text world, quiet world → quiet (host.echo text world)
  /-- Asking for a line keeps the property. -/
  prompt : ∀ text world, quiet world → quiet (host.prompt text world).2
  /-- Reading a file keeps the property. -/
  load : ∀ path world, quiet world → quiet (host.load path world).2
  /-- Running a program keeps the property. -/
  command : ∀ name args world, quiet world → quiet (host.command name args world).2
  /-- No prompt is interrupted. -/
  answers : ∀ text world, quiet world → (host.prompt text world).1 ≠ .interrupted

/-- A console on which no interrupt is typed is not disturbed. -/
theorem Console.undisturbed : Console.host.Undisturbed fun console => none ∉ console.typed where
  echo _ _ quiet := quiet
  prompt _ console quiet := by
    cases typed : console.typed with
    | nil => simp [host, readLine, typed]
    | cons line rest =>
        rw [typed, List.mem_cons, not_or] at quiet
        cases line <;> simpa [host, readLine, typed] using quiet.2
  load _ _ quiet := quiet
  command _ _ _ quiet := quiet
  answers _ console quiet := by
    cases typed : console.typed with
    | nil => simp [host, readLine, typed]
    | cons line rest =>
        cases line with
        | none => exact absurd (by simp [typed]) quiet
        | some line => simp [host, readLine, typed]

/-- An answer other than an interrupt does not disturb, however often it is given. -/
theorem Answer.undisturbed : Answer.host.Undisturbed fun answer => answer.reply ≠ .interrupted where
  echo _ _ quiet := quiet
  prompt _ _ quiet := quiet
  load _ _ quiet := quiet
  command _ _ _ quiet := quiet
  answers _ _ quiet := quiet

namespace Action

variable {σ : Type} {α : Type} {host : Host σ} {quiet : σ → Prop} {powers : Powers}

/-- The action keeps a property of the host's state, and its faults are internal. -/
def Undisturbed (quiet : σ → Prop) (action : Action σ α) : Prop :=
  ∀ machine, quiet machine.world →
    quiet (action.leaves machine).world ∧
      ∀ fault failed, action machine = .error fault failed → fault.isInternal = true

theorem Undisturbed.bind
    {β : Type}
    {first : Action σ α}
    {next : α → Action σ β}
    (firstUndisturbed : Undisturbed quiet first)
    (nextUndisturbed : ∀ value, Undisturbed quiet (next value)) :
    Undisturbed quiet (first >>= next) := by
  intro machine calm
  obtain ⟨still, internal⟩ := firstUndisturbed machine calm
  cases result : first machine with
  | ok value middle =>
      rw [leaves_of_ok result] at still
      rw [leaves, bind_of_ok result]
      exact nextUndisturbed value middle still
  | error fault failed =>
      rw [leaves_of_error result] at still
      rw [leaves_of_error (bind_of_error result), bind_of_error result]
      refine ⟨still, ?_⟩
      rintro _ _ ⟨⟩
      exact internal fault failed result

theorem ofStacks_undisturbed (error : EvalError) (change : Stacks → Option (Word × Stacks)) :
    Undisturbed quiet (ofStacks error change : Action σ Word) := by
  intro machine calm
  cases result : change machine.toStacks with
  | none =>
      simp only [leaves, ofStacks, result]
      exact ⟨calm, by rintro _ _ ⟨⟩; rfl⟩
  | some both =>
      simp only [leaves, ofStacks, result]
      exact ⟨calm, by rintro _ _ ⟨⟩⟩

theorem ofHost_undisturbed (attempt : String) (answer : Except HostError String) :
    Undisturbed quiet (ofHost attempt answer : Action σ String) := by
  intro machine calm
  rw [ofHost_leaves]
  refine ⟨calm, fun fault failed failure => ?_⟩
  cases answer with
  | ok text => cases failure
  | error cause =>
      cases cause <;>
        · cases failure
          rfl

/-- The first stage does not ask the user for anything. -/
theorem Tentative.undisturbed
    {action : Action σ α}
    (tentative : Tentative powers action) :
    Undisturbed quiet action := by
  induction tentative with
  | pure | dataStack | push | putCode | loadCode | clearData =>
      exact fun machine calm => ⟨calm, by rintro _ _ ⟨⟩⟩
  | throw fault internal => exact fun machine calm => ⟨calm, by rintro _ _ ⟨⟩; exact internal⟩
  | lookup name =>
      intro machine calm
      cases found : machine.dictionary.get? name with
      | none =>
          rw [leaves_of_error (lookup_of_none found), lookup_of_none found]
          exact ⟨calm, by rintro _ _ ⟨⟩; rfl⟩
      | some binding =>
          rw [leaves_of_ok (lookup_of_some found), lookup_of_some found]
          exact ⟨calm, by rintro _ _ ⟨⟩⟩
  | pop | takeCode => exact ofStacks_undisturbed _ _
  | bind _ _ firstUndisturbed nextUndisturbed => exact .bind firstUndisturbed nextUndisturbed

theorem Concluding.undisturbed
    {action : Action σ α}
    (undisturbed : host.Undisturbed quiet)
    (concluding : Concluding host powers action)
    (firm : powers.yields = false) :
    Undisturbed quiet action := by
  induction concluding with
  | pure | codeStack | push | putCode | loadCode | define | halt | enterRegion | leaveRegion =>
      exact fun machine calm => ⟨calm, by rintro _ _ ⟨⟩⟩
  | interrupt allowed =>
      rw [allowed] at firm
      cases firm
  | echo text => exact fun machine calm => ⟨undisturbed.echo _ _ calm, by rintro _ _ ⟨⟩⟩
  | prompt text => exact fun machine calm => ⟨undisturbed.prompt _ _ calm, by rintro _ _ ⟨⟩⟩
  | load path => exact fun machine calm => ofHost_undisturbed _ _ _ (undisturbed.load _ _ calm)
  | command name args =>
      exact fun machine calm => ofHost_undisturbed _ _ _ (undisturbed.command _ _ _ calm)
  | bind _ _ firstUndisturbed nextUndisturbed => exact .bind firstUndisturbed nextUndisturbed

theorem removeAt_undisturbed (index : Int) :
    Undisturbed quiet (removeAt index : Action σ Word) := by
  intro machine calm
  cases removed : machine.toStacks.removeAt? index with
  | none =>
      have tentative : Tentative {} (failAt index : Action σ Word) := .failAt index
      simpa only [leaves, removeAt, removed] using tentative.undisturbed machine calm
  | some both =>
      simp only [leaves, removeAt, removed]
      exact ⟨calm, by rintro _ _ ⟨⟩⟩

theorem Staged.undisturbed
    {action : Action σ Unit}
    (undisturbed : host.Undisturbed quiet)
    (staged : Staged host powers action)
    (firm : powers.yields = false) :
    Undisturbed quiet action := by
  induction staged with
  | tentative tentative => exact tentative.undisturbed
  | concluding concluding => exact concluding.undisturbed undisturbed firm
  | move index =>
      have pushes : ∀ word, Tentative {} (push word : Action σ Unit) := .push
      exact .bind (removeAt_undisturbed index) fun word => (pushes word).undisturbed
  | bind tentative _ inductionHypothesis => exact .bind tentative.undisturbed inductionHypothesis

/-- A prompt alone gives in to an interrupt, and on a host that is not disturbed there is none. -/
theorem perform_undisturbed (undisturbed : host.Undisturbed quiet) (builtin : Builtin) :
    Undisturbed quiet (perform host builtin) := by
  cases yields : builtin.powers.yields with
  | false => exact (perform_staged host builtin).undisturbed undisturbed yields
  | true =>
      cases builtin with
      | prompt =>
          -- The answer decides, so the parts of the word cannot be treated apart from each other.
          have pops : Tentative {} (pop : Action σ Word) := .pop
          refine .bind pops.undisturbed fun word machine calm => ?_
          have answered := undisturbed.answers word.intoString machine.world calm
          have still := undisturbed.prompt word.intoString machine.world calm
          cases answer : host.prompt word.intoString machine.world with
          | mk reply world =>
              rw [answer] at answered still
              have asked : Action.prompt host word.intoString machine =
                  .ok reply
                    { machine with log := .prompt word.intoString :: machine.log, world } := by
                simp only [Action.prompt, answer]
              rw [leaves, bind_of_ok asked]
              cases reply with
              | interrupted => exact absurd rfl answered
              | line | endOfInput => exact ⟨still, by rintro _ _ ⟨⟩⟩
      | _ => cases yields

theorem execute_undisturbed (undisturbed : host.Undisturbed quiet) (name : String) :
    Undisturbed quiet (execute host name) := by
  have looksUp : Tentative {} (lookup name : Action σ Binding) := .lookup name
  refine .bind looksUp.undisturbed fun binding => ?_
  cases binding with
  | primitive builtin => exact perform_undisturbed undisturbed builtin
  | defined effect word =>
      have calls : Tentative .all (call effect word : Action σ Unit) := .call effect word rfl rfl
      exact calls.undisturbed

end Action

namespace Machine

variable {σ : Type} {host : Host σ} {quiet : σ → Prop} {machine next : Machine σ}

theorem executes_undisturbed
    (undisturbed : host.Undisturbed quiet)
    (calm : quiet machine.world)
    (name : String)
    (rest : List Word) :
    quiet ((Action.execute host name).leaves (machine.begun name rest)).world ∧
      ∀ fault failed, Action.execute host name (machine.begun name rest) = .error fault failed →
        fault.isInternal = true :=
  Action.execute_undisturbed undisturbed name _ (world_begun.symm ▸ calm)

theorem quiet_of_step
    (undisturbed : host.Undisturbed quiet)
    (calm : quiet machine.world)
    (progress : machine.step host = .running next) :
    quiet next.world := by
  have executes := executes_undisturbed undisturbed calm
  have takes := step_takes host machine
  rw [progress] at takes
  cases takes with
  | shifted => exact calm
  | executed name rest after code done => exact Action.leaves_of_ok done ▸ (executes name rest).1
  | recovered name rest error failed snapshot outer code failure regions =>
      rw [world_recover]
      exact Action.leaves_of_error failure ▸ (executes name rest).1

theorem isInternal_of_step
    {fault : Fault}
    {final : Machine σ}
    (undisturbed : host.Undisturbed quiet)
    (calm : quiet machine.world)
    (ended : machine.step host = .ended (.error fault final)) :
    fault.isInternal = true := by
  have takes := step_takes host machine
  rw [ended] at takes
  generalize outcome : Progress.ended (.error fault final) = progress at takes
  cases takes with
  | abandoned name rest error failed =>
      unfold abandon at outcome
      split at outcome <;>
        · cases outcome
          rfl
  | broken name rest fault failed code failure =>
      cases outcome
      exact (executes_undisturbed undisturbed calm name rest).2 fault _ failure
  | finished | shifted | executed | recovered => cases outcome

/-- A run in which no prompt is interrupted has internal faults only. -/
theorem isInternal_of_run
    {steps : Nat}
    {fault : Fault}
    {final : Machine σ}
    (undisturbed : host.Undisturbed quiet)
    (calm : quiet machine.world)
    (finished : run host steps machine = some (.error fault final)) :
    fault.isInternal = true := by
  induction steps generalizing machine with
  | zero => cases finished
  | succ steps inductionHypothesis =>
      cases progress : machine.step host with
      | running next =>
          rw [run_of_running progress] at finished
          exact inductionHypothesis (quiet_of_step undisturbed calm progress) finished
      | ended outcome =>
          rw [run_of_ended progress] at finished
          cases finished
          exact isInternal_of_step undisturbed calm progress

end Machine
end Concatenative
