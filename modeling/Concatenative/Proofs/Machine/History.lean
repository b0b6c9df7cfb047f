import Concatenative.Proofs.Machine.Staging

/-!
# The past of a machine

The log of a machine is written and never read, and tracing does nothing but write into it. So an
action does the same on two machines that differ in what happened before or in whether they trace,
and the calls that it adds to the log do not depend on that either.
-/

namespace Concatenative

/-- A way to tell the past of a machine anew: what becomes of its log and of its tracing. A call
that is made after the change is told like one that was made before it. -/
structure Retelling where
  /-- The log that is told in place of a log. -/
  log : List Event → List Event
  /-- Whether the machine traces, given whether it did. -/
  tracing : Bool → Bool
  /-- A call is told as it is. -/
  call : ∀ event past, event.isTrace = false → log (event :: past) = event :: log past

namespace Machine

variable {σ : Type}

/-- The machine, with its past told anew. -/
def retold (retelling : Retelling) (machine : Machine σ) : Machine σ :=
  { machine with
    log := retelling.log machine.log
    tracing := retelling.tracing machine.tracing }

end Machine

/-- Events that happened before are told. -/
def Retelling.after (earlier : List Event) : Retelling where
  log log := log ++ earlier
  tracing tracing := tracing
  call _ _ _ := rfl

namespace Action

variable {σ : Type} {α : Type}

/-- The result of an action, with a change to the machine it leaves. -/
def mapFinal
    (change : Machine σ → Machine σ) :
    EStateM.Result Fault (Machine σ) α → EStateM.Result Fault (Machine σ) α
  | .ok value after => .ok value (change after)
  | .error fault after => .error fault (change after)

/-- It makes no difference whether a machine is changed before an action or after it. -/
def CommutesWith (change : Machine σ → Machine σ) (action : Action σ α) : Prop :=
  ∀ machine, action (change machine) = mapFinal change (action machine)

/-- A sequence commutes with a change at a machine if its parts do on their way. -/
theorem bind_commutes
    {β : Type}
    {change : Machine σ → Machine σ}
    {first : Action σ α}
    {next : α → Action σ β}
    {machine : Machine σ}
    (early : first (change machine) = mapFinal change (first machine))
    (late : ∀ value middle, first machine = .ok value middle →
      next value (change middle) = mapFinal change (next value middle)) :
    (first >>= next) (change machine) = mapFinal change ((first >>= next) machine) := by
  cases result : first machine with
  | ok value middle =>
      rw [result] at early
      rw [bind_of_ok result, bind_of_ok early]
      exact late value middle result
  | error fault failed =>
      rw [result] at early
      rw [bind_of_error result, bind_of_error early]
      rfl

theorem CommutesWith.bind
    {β : Type}
    {change : Machine σ → Machine σ}
    {first : Action σ α}
    {next : α → Action σ β}
    (firstCommutes : CommutesWith change first)
    (nextCommutes : ∀ value, CommutesWith change (next value)) :
    CommutesWith change (first >>= next) :=
  fun machine => bind_commutes (firstCommutes machine) fun value middle _ =>
    nextCommutes value middle

/-- What a host answers does not depend on the machine. -/
theorem ofHost_commutes
    (change : Machine σ → Machine σ)
    (attempt : String)
    (answer : Except HostError String) :
    CommutesWith change (ofHost attempt answer : Action σ String) := by
  intro machine
  cases answer with
  | ok text => rfl
  | error cause => cases cause <;> rfl

/-- Looking up a name commutes with every change that leaves the meanings of names alone. -/
theorem lookup_commutes
    (change : Machine σ → Machine σ)
    (same : ∀ machine, (change machine).dictionary = machine.dictionary)
    (name : String) :
    CommutesWith change (lookup name : Action σ Binding) := by
  intro machine
  cases found : machine.dictionary.get? name with
  | none =>
      rw [lookup_of_none found, lookup_of_none (same machine ▸ found)]
      rfl
  | some binding =>
      rw [lookup_of_some found, lookup_of_some (same machine ▸ found)]
      rfl

/-- A change leaves the host alone, and a call is logged in the same way after it. -/
structure KeepsCalls (change : Machine σ → Machine σ) : Prop where
  /-- The host is in the same state. -/
  world : ∀ machine, (change machine).world = machine.world
  /-- A call can be logged before the change as well as after it. -/
  called : ∀ machine event world, event.isTrace = false →
    { change machine with log := event :: (change machine).log, world } =
      change { machine with log := event :: machine.log, world }

namespace KeepsCalls

variable {change : Machine σ → Machine σ}

theorem echo (keeps : KeepsCalls change) (host : Host σ) (text : String) :
    CommutesWith change (echo host text) := by
  intro machine
  have logged := keeps.called machine (.echo text) (host.echo text machine.world) rfl
  refine congrArg (EStateM.Result.ok ()) (Eq.trans ?_ logged)
  simp only [keeps.world]

theorem prompt (keeps : KeepsCalls change) (host : Host σ) (text : String) :
    CommutesWith change (prompt host text) := by
  intro machine
  have logged := keeps.called machine (.prompt text) (host.prompt text machine.world).2 rfl
  simp only [Action.prompt, keeps.world, logged, mapFinal]

theorem load (keeps : KeepsCalls change) (host : Host σ) (path : String) :
    CommutesWith change (load host path) := by
  intro machine
  have logged := keeps.called machine (.load path) (host.load path machine.world).2 rfl
  simp only [Action.load, keeps.world, logged]
  exact ofHost_commutes change _ _ _

theorem command (keeps : KeepsCalls change) (host : Host σ) (name : String) (args : List String) :
    CommutesWith change (command host name args) := by
  intro machine
  have logged := keeps.called machine (.command name args) (host.command name args machine.world).2
    rfl
  simp only [Action.command, keeps.world, logged]
  exact ofHost_commutes change _ _ _

end KeepsCalls

/-! ## Telling the past anew -/

variable (retelling : Retelling)

theorem ofStacks_retold (error : EvalError) (change : Stacks → Option (Word × Stacks)) :
    CommutesWith (Machine.retold retelling) (ofStacks error change : Action σ Word) := by
  intro machine
  cases result : change machine.toStacks with
  | none => simp only [ofStacks, Machine.retold, result, mapFinal]
  | some both => simp only [ofStacks, Machine.retold, result, mapFinal]

theorem Tentative.retold
    {powers : Powers}
    {action : Action σ α}
    (tentative : Tentative powers action) :
    CommutesWith (Machine.retold retelling) action := by
  induction tentative with
  | pure | throw | dataStack | push | putCode | loadCode | clearData => exact fun machine => rfl
  | lookup name => exact lookup_commutes (Machine.retold retelling) (fun machine => rfl) name
  | pop => exact ofStacks_retold retelling _ _
  | takeCode => exact ofStacks_retold retelling _ _
  | bind _ _ firstCommutes nextCommutes => exact .bind firstCommutes nextCommutes

theorem keepsCalls_retold : KeepsCalls (Machine.retold retelling : Machine σ → Machine σ) where
  world _ := rfl
  called machine event world call := by
    simp only [Machine.retold, retelling.call event machine.log call]

theorem Concluding.retold
    {host : Host σ}
    {powers : Powers}
    {action : Action σ α}
    (concluding : Concluding host powers action) :
    CommutesWith (Machine.retold retelling) action := by
  induction concluding with
  | pure | interrupt | codeStack | push | putCode | loadCode | define | halt | enterRegion
  | leaveRegion => exact fun machine => rfl
  | echo text => exact (keepsCalls_retold retelling).echo host text
  | prompt text => exact (keepsCalls_retold retelling).prompt host text
  | load path => exact (keepsCalls_retold retelling).load host path
  | command name args => exact (keepsCalls_retold retelling).command host name args
  | bind _ _ firstCommutes nextCommutes => exact .bind firstCommutes nextCommutes

theorem removeAt_retold (index : Int) :
    CommutesWith (Machine.retold retelling) (removeAt index : Action σ Word) := by
  intro machine
  cases removed : machine.toStacks.removeAt? index with
  | none =>
      have tentative : Tentative {} (failAt index : Action σ Word) := .failAt index
      simp only [removeAt, Machine.retold, removed]
      exact tentative.retold retelling machine
  | some both => simp only [removeAt, Machine.retold, removed, mapFinal]

theorem Staged.retold
    {host : Host σ}
    {powers : Powers}
    {action : Action σ Unit}
    (staged : Staged host powers action) :
    CommutesWith (Machine.retold retelling) action := by
  induction staged with
  | tentative tentative => exact tentative.retold retelling
  | concluding concluding => exact concluding.retold retelling
  | move index => exact .bind (removeAt_retold retelling index) fun word machine => rfl
  | bind tentative _ inductionHypothesis =>
      exact .bind (tentative.retold retelling) inductionHypothesis

/-- An atom that fails does so with the same error whatever happened before. -/
theorem execute_fails_withLog
    {host : Host σ}
    {name : String}
    {machine failed : Machine σ}
    {fault : Fault}
    (failure : execute host name machine = .error fault failed)
    (log : List Event) :
    ∃ failed, execute host name { machine with log } = .error fault failed := by
  -- Both machines tell more than one and the same machine, whose log is empty.
  have forgotten : ∀ events, { machine with log := events } =
      Machine.retold (.after events) { machine with log := [] } := fun events => by
    simp [Machine.retold, Retelling.after]
  have commutes := fun events =>
    (execute_staged host name).retold (.after events) { machine with log := [] }
  have here := commutes machine.log
  rw [← forgotten, failure] at here
  have there := commutes log
  rw [← forgotten] at there
  cases result : execute host name { machine with log := [] } with
  | ok _ after => rw [result] at here; cases here
  | error other after =>
      rw [result] at here there
      injection here with faults _
      exact ⟨_, by rw [there, faults]; rfl⟩

end Action
end Concatenative
