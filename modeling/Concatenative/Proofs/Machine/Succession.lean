import Concatenative.Proofs.Machine.Failure
import Concatenative.Proofs.Machine.Frame
import Concatenative.Proofs.Source.Splitting

/-!
# Programs one after the other

Two programs that are joined by a newline are one program: the words of the second lie below those
of the first while the first is run. A first program that keeps to its own code and regions does not
notice them, and when it has come to its end the second is run as if it had been given only then.
-/

namespace Concatenative
namespace Machine

variable {σ : Type} {host : Host σ} {machine after : Machine σ}

/-! ## The journal between two steps -/

theorem begun_commit (name : String) (rest : List Word) :
    (machine.mapStacks Stacks.commit).begun name rest = machine.begun name rest := by
  cases tracing : machine.tracing <;> simp [begun, trace, note, mapStacks, Stacks.commit, tracing]

/-- A step that executes an atom begins with an empty journal. -/
theorem step_commit_of_atom
    {name : String}
    {rest : List Word}
    (next : machine.code = .atom name :: rest) :
    (machine.mapStacks Stacks.commit).step host = machine.step host := by
  have same : (machine.mapStacks Stacks.commit).begun name rest = machine.begun name rest :=
    begun_commit name rest
  have nextToo : (machine.mapStacks Stacks.commit).code = .atom name :: rest := next
  simp only [begun] at same
  rw [step_eq_stepAtom next, step_eq_stepAtom nextToo]
  simp only [stepAtom, same]

/-- What the journal holds before a step does not matter to a run. -/
theorem run_commit (host : Host σ) (steps : Nat) (machine : Machine σ) :
    run host steps (machine.mapStacks Stacks.commit) = run host steps machine := by
  induction steps generalizing machine with
  | zero => rfl
  | succ steps inductionHypothesis =>
      have takes := step_takes host machine
      generalize progressed : machine.step host = progress at takes
      cases takes with
      | finished done =>
          have doneToo : (machine.mapStacks Stacks.commit).code = [] := done
          rw [run_of_ended progressed, run_of_ended (step_of_no_code doneToo)]
          rfl
      | shifted word rest literal next =>
          have nextToo : (machine.mapStacks Stacks.commit).code = word :: rest := next
          rw [run_of_running progressed, run_of_running (step_of_literal literal nextToo)]
          exact inductionHypothesis { machine with data := word :: machine.data, code := rest }
      | executed name rest after next | recovered name rest error failed snapshot outer next
      | abandoned name rest error failed next | broken name rest fault failed next =>
          simp only [run, step_commit_of_atom next]

/-! ## Joined programs -/

/-- A program that keeps to its own code and regions and comes to its end leaves the machine to the
code below it. -/
theorem run_atop_of_finished
    {count : Nat}
    {last : Machine σ}
    (advances : Advances host count machine last)
    (confined : machine.Throughout host (Confined host))
    (finished : last.code = [])
    (closed : last.recovery = [])
    (below : List Word)
    (steps : Nat) :
    run host (count + steps) (machine.atop below []) =
      run host steps { last with code := below } := by
  have above := advances.atop below [] fun earlier state _ reached =>
    confined earlier state reached
  have cleared : last.atop below [] = { last with code := below } := by
    simp [atop, finished, closed]
  rw [above.run_eq, cleared]

/-- Splitting a program at a newline does not change what it does. Take two texts that can be read,
and a machine with nothing to execute on which the first text comes to its end, with no region left
open and without reaching beyond its own code and regions. Then the texts that are joined by a
newline have the outcomes on that machine that the second text has on the machine that the first one
leaves: the same end or the same fault, with the same stacks, names and regions and with the same
calls to the host. -/
theorem evaluate_split_at_newline
    {first second : String}
    {firstWords secondWords : List Word}
    {steps : Nat}
    (idle : machine.code = [])
    (outside : machine.recovery = [])
    (firstParsed : Source.parse first = .ok firstWords)
    (secondParsed : Source.parse second = .ok secondWords)
    (finished : machine.evaluate host steps first = some (.ok () after))
    (closed : after.recovery = [])
    (confined : machine.ThroughoutEvaluation host first (Confined host))
    (outcome : Outcome σ) :
    (∃ steps, machine.evaluate host steps (first ++ "\n" ++ second) = some outcome) ↔
      ∃ steps, after.evaluate host steps second = some outcome := by
  rw [evaluate_of_parse host steps firstParsed, idle, List.append_nil] at finished
  have throughout := confined firstWords firstParsed
  rw [idle, List.append_nil] at throughout
  obtain ⟨count, last, advances, ended⟩ := exists_advances_of_run finished
  obtain ⟨noCode, rfl⟩ := eq_commit_of_step_ended ended
  have joined := Source.parse_append_newline firstParsed secondParsed
  -- The words of both texts are those of the first one above those of the second.
  have above : { machine with code := (secondWords ++ firstWords).reverse ++ machine.code } =
      { machine with code := firstWords.reverse }.atop secondWords.reverse [] := by
    simp [atop, idle, outside]
  have left : (last.mapStacks Stacks.commit).code = [] := noCode
  have follows : ∀ more, machine.evaluate host (count + more) (first ++ "\n" ++ second) =
      (last.mapStacks Stacks.commit).evaluate host more second := by
    intro more
    rw [evaluate_of_parse host _ joined, evaluate_of_parse host _ secondParsed, above, left,
      List.append_nil, run_atop_of_finished advances throughout noCode closed]
    exact (run_commit host more { last with code := secondWords.reverse }).symm
  constructor
  · rintro ⟨enough, whole⟩
    refine ⟨enough, ?_⟩
    rw [← follows, evaluate_of_parse host _ joined, Nat.add_comm]
    rw [evaluate_of_parse host _ joined] at whole
    exact run_add whole count
  · rintro ⟨enough, later⟩
    exact ⟨count + enough, (follows enough).trans later⟩

/-- The first text recovers from a failure and binds a name, and the second fails after it has used
that name. -/
theorem evaluate_split_at_newline_failing :
    let machine : Machine Answer := Library.bare false {}
    ∃ after outcome,
      machine.evaluate Answer.host 8 "try { drop } { echo }\nx = 5" = some (.ok () after) ∧
      (∃ steps,
        machine.evaluate Answer.host steps ("try { drop } { echo }\nx = 5" ++ "\n" ++ "+ y x") =
          some outcome) ∧
      (ofOutcome outcome).calls = [.echo "drop error: stack underflow"] ∧
      (ofOutcome outcome).data = [.int 5] ∧
      (ofOutcome outcome).code = [.atom "y", .atom "+"] := by
  intro machine
  have firstParsed : Source.parse "try { drop } { echo }\nx = 5" =
      .ok [.atom "x", .atom "=", .int 5, .atom "try", .list [.atom "drop"], .list [.atom "echo"]] :=
    Source.parse_of_readTokens rfl
  have secondParsed : Source.parse "+ y x" = .ok [.atom "+", .atom "y", .atom "x"] :=
    Source.parse_of_readTokens rfl
  have finished : machine.evaluate Answer.host 8 "try { drop } { echo }\nx = 5" =
      some (.ok () _) :=
    (evaluate_of_parse Answer.host 8 firstParsed machine).trans rfl
  have confined : machine.ThroughoutEvaluation Answer.host "try { drop } { echo }\nx = 5"
      (Confined Answer.host) := by
    refine throughoutEvaluation_of_parse firstParsed ?_
    iterate 7 refine .of_running (of_decide_eq_true rfl) rfl ?_
    exact .of_ended (of_decide_eq_true rfl) rfl
  have split :=
    evaluate_split_at_newline rfl rfl firstParsed secondParsed finished rfl confined
  exact ⟨_, _, finished,
    (split _).mpr ⟨3, (evaluate_of_parse Answer.host 3 secondParsed _).trans rfl⟩, rfl, rfl, rfl⟩

end Machine
end Concatenative
