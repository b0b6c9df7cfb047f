import Concatenative.Machine.Run

/-!
# Questions of a machine

A step asks its host at most one question: for a line, for a file or for the output of a program.
`question?` tells which, before the step is taken, so that the answer can be fetched from outside
and the step be taken on a host that has it ready.
-/

namespace Concatenative

/-- The event is a question to the host. -/
def Event.asks : Event → Bool
  | .prompt _ => true
  | .load _ => true
  | .command _ _ => true
  | _ => false

/-- An answer made ready beforehand. -/
structure Answer where
  /-- The answer to a prompt. -/
  reply : Reply := .endOfInput
  /-- The text of a file or the output of a program, or why there is none. -/
  content : Except HostError String := .ok ""

/-- The host that answers every question with what was made ready. -/
def Answer.host : Host Answer where
  echo _ answer := answer
  prompt _ answer := (answer.reply, answer)
  load _ answer := (answer.content, answer)
  command _ _ answer := (answer.content, answer)

namespace Machine

variable {σ : Type}

/-- The machine after a run. -/
def ofOutcome : Outcome σ → Machine σ
  | .ok () machine => machine
  | .error _ machine => machine

/-- The machine after a step. -/
def ofProgress : Progress σ → Machine σ
  | .running machine => machine
  | .ended outcome => ofOutcome outcome

/-- Take a step with an answer at hand, in a new log. -/
def stepWith (answer : Answer) (machine : Machine Answer) : Progress Answer :=
  { machine with log := [], world := answer }.step Answer.host

/-- The events of a step, earliest first. -/
def eventsOf (progress : Progress σ) : List Event :=
  (ofProgress progress).log.reverse

/-- The question that the next step asks, if it asks one, with the events before it. -/
def question? (machine : Machine Answer) : List Event × Option Event :=
  let events := eventsOf (machine.stepWith {})
  (events.takeWhile fun event => !event.asks, events.find? Event.asks)

end Machine
end Concatenative
