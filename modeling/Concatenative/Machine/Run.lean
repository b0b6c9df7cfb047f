import Concatenative.Machine.Builtin

/-!
# Runs

A step takes the next word from the code stack. A word that stands for itself goes to the data
stack; an atom is executed. If that fails because of the program, the innermost protected region is
left: its snapshot comes back, and a diagnostic goes on top of its data. Outside such a region the
changes of the step are taken back, the atom returns to the code stack, and the run ends there. Any
other fault ends the run with the changes as they are.

A run repeats steps as long as there is code. It need not end, so `run` is given the number of steps
it may take.
-/

namespace Concatenative

/-- How a run ended: normally, or with a fault. -/
abbrev Outcome (σ : Type) := EStateM.Result Fault (Machine σ) Unit

/-- What a step leads to. -/
inductive Progress (σ : Type) where
  /-- The run goes on. -/
  | running (machine : Machine σ)
  /-- The run is over. -/
  | ended (outcome : Outcome σ)

namespace Action

variable {σ : Type}

/-- Execute the word that a name is bound to. A definition with an exact effect is refused at once
on a data stack that is not deep enough for it. -/
def call (effect : Effect) (word : Word) : Action σ Unit := do
  if effect.exact && (← get).data.length < effect.input then fail .stackUnderflow
  match word with
  | .list body => loadCode body
  | word => putCode word

/-- Execute a name. -/
def execute (host : Host σ) (name : String) : Action σ Unit := do
  match ← lookup name with
  | .primitive builtin => perform host builtin
  | .defined effect word => call effect word

end Action

namespace Machine

variable {σ : Type}

/-- The text that a protected region leaves when an atom fails in it. -/
def diagnostic (name : String) (error : EvalError) : String :=
  name ++ " error: " ++ error.message

/-- Go back to a snapshot after an atom failed. -/
def recover
    (name : String)
    (error : EvalError)
    (snapshot : Snapshot)
    (outer : List Snapshot)
    (machine : Machine σ) :
    Machine σ :=
  let restored : Machine σ :=
    { machine with
      dictionary := snapshot.dictionary
      data := snapshot.data
      code := snapshot.code
      recovery := outer
      journal := [] }
  (restored.trace (.recovered name error.message)).mapStacks
    (Stacks.push (.str (diagnostic name error)))

/-- End a step that failed outside every protected region. -/
def abandon (name : String) (error : EvalError) (machine : Machine σ) : Outcome σ :=
  match machine.toStacks.rollback with
  | (state, none) =>
    .error (.eval error)
      { machine with toStacks := { state with code := .atom name :: state.code } }
  | (state, some undoError) => .error (.undo undoError) { machine with toStacks := state }

/-- Execute an atom that has been taken from the code stack. -/
def stepAtom (host : Host σ) (name : String) (machine : Machine σ) : Progress σ :=
  match Action.execute host name ((machine.trace (.evaluating name)).mapStacks Stacks.commit) with
  | .ok () next => .running next
  | .error (.eval error) failed =>
    match failed.recovery with
    | snapshot :: outer => .running (failed.recover name error snapshot outer)
    | [] => .ended (failed.abandon name error)
  | .error fault failed => .ended (.error fault failed)

/-- Execute the next word. -/
def step (host : Host σ) (machine : Machine σ) : Progress σ :=
  match machine.code with
  | [] => .ended (.ok () (machine.mapStacks Stacks.commit))
  | .atom name :: rest => stepAtom host name { machine with code := rest }
  | word :: rest => .running { machine with data := word :: machine.data, code := rest }

/-- Execute words until the code stack is empty, in at most `steps` steps; nothing if these do not
suffice. -/
def run (host : Host σ) : (steps : Nat) → Machine σ → Option (Outcome σ)
  | 0, _ => none
  | steps + 1, machine =>
    match machine.step host with
    | .running next => run host steps next
    | .ended outcome => some outcome

theorem run_of_running
    {host : Host σ}
    {machine next : Machine σ}
    (progress : machine.step host = .running next)
    (steps : Nat) :
    run host (steps + 1) machine = run host steps next := by
  simp only [run, progress]

theorem run_of_ended
    {host : Host σ}
    {machine : Machine σ}
    {outcome : Outcome σ}
    (progress : machine.step host = .ended outcome)
    (steps : Nat) :
    run host (steps + 1) machine = some outcome := by
  simp only [run, progress]

/-- A run that is over in some number of steps is over with the same outcome in a greater one. -/
theorem run_add
    {host : Host σ}
    {steps : Nat}
    {machine : Machine σ}
    {outcome : Outcome σ}
    (finished : run host steps machine = some outcome)
    (more : Nat) :
    run host (steps + more) machine = some outcome := by
  induction steps generalizing machine with
  | zero => cases finished
  | succ steps inductionHypothesis =>
      rw [Nat.succ_add]
      cases progress : machine.step host with
      | running next =>
          rw [run_of_running progress] at finished ⊢
          exact inductionHypothesis finished
      | ended final =>
          rw [run_of_ended progress] at finished ⊢
          exact finished

/-- Whatever the numbers of steps, a run has one outcome. -/
theorem run_unique
    {host : Host σ}
    {steps more : Nat}
    {machine : Machine σ}
    {outcome other : Outcome σ}
    (finished : run host steps machine = some outcome)
    (finishedToo : run host more machine = some other) :
    outcome = other := by
  have whole := run_add finished more
  rw [Nat.add_comm, run_add finishedToo steps] at whole
  exact (Option.some.inj whole).symm

/-- Run the program that a text denotes. A text that denotes none changes nothing. -/
def evaluate (host : Host σ) (steps : Nat) (text : String) (machine : Machine σ) :
    Option (Outcome σ) :=
  match Source.parse text with
  | .error error => some (.error (.ofReadError error) machine)
  | .ok words => run host steps { machine with code := words.reverse ++ machine.code }

/-- Run words on top of the code that is left. -/
def runWords (host : Host σ) (steps : Nat) (words : List Word) (machine : Machine σ) :
    Option (Outcome σ) :=
  run host steps (machine.mapStacks (Stacks.load words))

end Machine
end Concatenative
