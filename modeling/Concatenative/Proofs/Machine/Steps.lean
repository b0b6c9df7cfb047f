import Concatenative.Machine.Question
import Concatenative.Proofs.Machine.Staging

/-!
# Steps

What a step does with an atom, told from the result of executing it, and the machines that a run
passes through.
-/

namespace Concatenative
namespace Machine

variable {σ : Type} {host : Host σ} {machine after failed : Machine σ}
variable {name : String} {rest : List Word} {error : EvalError}

/-! ## One step -/

/-- The machine on which a step executes an atom, given the code below the atom. -/
def begun (name : String) (rest : List Word) (machine : Machine σ) : Machine σ :=
  ({ machine with code := rest }.trace (.evaluating name)).mapStacks Stacks.commit

theorem step_eq_stepAtom (next : machine.code = .atom name :: rest) :
    machine.step host = stepAtom host name { machine with code := rest } := by
  simp only [step, next]

theorem step_of_no_code (done : machine.code = []) :
    machine.step host = .ended (.ok () (machine.mapStacks Stacks.commit)) := by
  simp only [step, done]

/-- A word that stands for itself goes to the data stack. -/
theorem step_of_literal
    {word : Word}
    (literal : ∀ name, word ≠ .atom name)
    (next : machine.code = word :: rest) :
    machine.step host = .running { machine with data := word :: machine.data, code := rest } := by
  cases word with
  | atom name => exact absurd rfl (literal name)
  | int | hex | str | list | dict => simp only [step, next]

theorem step_of_execute_ok
    (next : machine.code = .atom name :: rest)
    (done : Action.execute host name (machine.begun name rest) = .ok () after) :
    machine.step host = .running after := by
  rw [begun] at done
  simp only [step_eq_stepAtom next, stepAtom, done]

/-- An atom that fails inside a protected region takes the machine to its snapshot. -/
theorem step_of_failure_inside
    {snapshot : Snapshot}
    {outer : List Snapshot}
    (next : machine.code = .atom name :: rest)
    (failure : Action.execute host name (machine.begun name rest) = .error (.eval error) failed)
    (regions : failed.recovery = snapshot :: outer) :
    machine.step host = .running (failed.recover name error snapshot outer) := by
  rw [begun] at failure
  simp only [step_eq_stepAtom next, stepAtom, failure, regions]

/-- An atom that fails outside all protected regions ends the run. -/
theorem step_of_failure_outside
    (next : machine.code = .atom name :: rest)
    (failure : Action.execute host name (machine.begun name rest) = .error (.eval error) failed)
    (regions : failed.recovery = []) :
    machine.step host = .ended (failed.abandon name error) := by
  rw [begun] at failure
  simp only [step_eq_stepAtom next, stepAtom, failure, regions]

theorem step_of_foreign_fault
    {fault : Fault}
    (next : machine.code = .atom name :: rest)
    (failure : Action.execute host name (machine.begun name rest) = .error fault failed)
    (foreign : ∀ error, fault ≠ .eval error) :
    machine.step host = .ended (.error fault failed) := by
  rw [begun] at failure
  cases fault with
  | eval error => exact absurd rfl (foreign error)
  | flawed | oversized | host | nullCharacter | interrupted | badIndex | undo =>
      simp only [step_eq_stepAtom next, stepAtom, failure]

/-- What a step can lead to. -/
inductive Takes (host : Host σ) (machine : Machine σ) : Progress σ → Prop where
  /-- There is no code left. -/
  | finished (done : machine.code = []) :
      Takes host machine (.ended (.ok () (machine.mapStacks Stacks.commit)))
  /-- A word that stands for itself goes to the data stack. -/
  | shifted (word : Word) (rest : List Word)
      (literal : ∀ name, word ≠ .atom name)
      (next : machine.code = word :: rest) :
      Takes host machine (.running { machine with data := word :: machine.data, code := rest })
  /-- An atom is executed. -/
  | executed (name : String) (rest : List Word) (after : Machine σ)
      (next : machine.code = .atom name :: rest)
      (done : Action.execute host name (machine.begun name rest) = .ok () after) :
      Takes host machine (.running after)
  /-- An atom fails, and the innermost region is left. -/
  | recovered (name : String) (rest : List Word) (error : EvalError) (failed : Machine σ)
      (snapshot : Snapshot) (outer : List Snapshot)
      (next : machine.code = .atom name :: rest)
      (failure : Action.execute host name (machine.begun name rest) = .error (.eval error) failed)
      (regions : failed.recovery = snapshot :: outer) :
      Takes host machine (.running (failed.recover name error snapshot outer))
  /-- An atom fails outside all regions. -/
  | abandoned (name : String) (rest : List Word) (error : EvalError) (failed : Machine σ)
      (next : machine.code = .atom name :: rest)
      (failure : Action.execute host name (machine.begun name rest) = .error (.eval error) failed)
      (regions : failed.recovery = []) :
      Takes host machine (.ended (failed.abandon name error))
  /-- A fault that is not the program's ends the run. -/
  | broken (name : String) (rest : List Word) (fault : Fault) (failed : Machine σ)
      (next : machine.code = .atom name :: rest)
      (failure : Action.execute host name (machine.begun name rest) = .error fault failed)
      (foreign : ∀ error, fault ≠ .eval error) :
      Takes host machine (.ended (.error fault failed))

theorem step_takes (host : Host σ) (machine : Machine σ) :
    Takes host machine (machine.step host) := by
  cases code : machine.code with
  | nil =>
      rw [step_of_no_code code]
      exact .finished code
  | cons word rest =>
      cases word with
      | atom name =>
          cases result : Action.execute host name (machine.begun name rest) with
          | ok value next =>
              rw [step_of_execute_ok code result]
              exact .executed name rest next code result
          | error fault failed =>
              by_cases ownFault : ∃ error, fault = .eval error
              · obtain ⟨error, rfl⟩ := ownFault
                cases regions : failed.recovery with
                | nil =>
                    rw [step_of_failure_outside code result regions]
                    exact .abandoned name rest error failed code result regions
                | cons snapshot outer =>
                    rw [step_of_failure_inside code result regions]
                    exact .recovered name rest error failed snapshot outer code result regions
              · have foreign : ∀ error, fault ≠ .eval error := fun error equal =>
                  ownFault ⟨error, equal⟩
                rw [step_of_foreign_fault code result foreign]
                exact .broken name rest fault failed code result foreign
      | int | hex | str | list | dict =>
          rw [step_of_literal (by simp) code]
          exact .shifted _ rest (by simp) code

/-- A run ends normally only when there is no code left. -/
theorem eq_commit_of_step_ended
    {final : Machine σ}
    (ended : machine.step host = .ended (.ok () final)) :
    machine.code = [] ∧ final = machine.mapStacks Stacks.commit := by
  have takes := step_takes host machine
  rw [ended] at takes
  generalize outcome : Progress.ended (.ok () final) = progress at takes
  cases takes with
  | finished done =>
      cases outcome
      exact ⟨done, rfl⟩
  | abandoned name rest error failed =>
      injection outcome with outcome
      unfold abandon at outcome
      split at outcome <;> cases outcome
  | shifted | executed | recovered | broken => cases outcome

/-! ### The machine that begins to execute an atom -/

@[simp] theorem data_begun : (machine.begun name rest).data = machine.data := by
  cases tracing : machine.tracing <;> simp [begun, trace, note, mapStacks, Stacks.commit, tracing]

@[simp] theorem code_begun : (machine.begun name rest).code = rest := by
  cases tracing : machine.tracing <;> simp [begun, trace, note, mapStacks, Stacks.commit, tracing]

@[simp] theorem journal_begun : (machine.begun name rest).journal = [] := rfl

@[simp] theorem dictionary_begun :
    (machine.begun name rest).dictionary = machine.dictionary := by
  cases tracing : machine.tracing <;> simp [begun, trace, note, mapStacks, tracing]

@[simp] theorem recovery_begun : (machine.begun name rest).recovery = machine.recovery := by
  cases tracing : machine.tracing <;> simp [begun, trace, note, mapStacks, tracing]

@[simp] theorem world_begun : (machine.begun name rest).world = machine.world := by
  cases tracing : machine.tracing <;> simp [begun, trace, note, mapStacks, tracing]

/-- A machine that begins to execute an atom is the machine that was, but for the code, the journal
and the trace. -/
theorem begun_eq :
    machine.begun name rest =
      { machine with code := rest, journal := [], log := (machine.begun name rest).log } := by
  cases tracing : machine.tracing <;> simp [begun, trace, note, mapStacks, Stacks.commit, tracing]

/-! ### The machine that goes back to a snapshot -/

section Recovered

variable (snapshot : Snapshot) (outer : List Snapshot)

@[simp] theorem data_recover :
    (machine.recover name error snapshot outer).data =
      .str (diagnostic name error) :: snapshot.data := by
  cases tracing : machine.tracing <;>
    simp [recover, trace, note, mapStacks, Stacks.push, tracing]

@[simp] theorem code_recover :
    (machine.recover name error snapshot outer).code = snapshot.code := by
  cases tracing : machine.tracing <;>
    simp [recover, trace, note, mapStacks, Stacks.push, tracing]

@[simp] theorem dictionary_recover :
    (machine.recover name error snapshot outer).dictionary = snapshot.dictionary := by
  cases tracing : machine.tracing <;> simp [recover, trace, note, mapStacks, tracing]

@[simp] theorem recovery_recover :
    (machine.recover name error snapshot outer).recovery = outer := by
  cases tracing : machine.tracing <;> simp [recover, trace, note, mapStacks, tracing]

@[simp] theorem world_recover :
    (machine.recover name error snapshot outer).world = machine.world := by
  cases tracing : machine.tracing <;> simp [recover, trace, note, mapStacks, tracing]

end Recovered

/-! ### The meaning of an atom -/

theorem execute_of_primitive
    {builtin : Builtin}
    (bound : machine.dictionary.get? name = some (.primitive builtin)) :
    Action.execute host name (machine.begun name rest) =
      Action.perform host builtin (machine.begun name rest) := by
  have found : (machine.begun name rest).dictionary.get? name = some (.primitive builtin) := by
    rw [dictionary_begun, bound]
  exact Action.bind_of_ok (Action.lookup_of_some found)

theorem step_of_perform_ok
    {builtin : Builtin}
    (next : machine.code = .atom name :: rest)
    (bound : machine.dictionary.get? name = some (.primitive builtin))
    (done : Action.perform host builtin (machine.begun name rest) = .ok () after) :
    machine.step host = .running after :=
  step_of_execute_ok next ((execute_of_primitive bound).trans done)

theorem execute_of_defined
    {effect : Effect}
    {word : Word}
    (bound : machine.dictionary.get? name = some (.defined effect word)) :
    Action.execute host name (machine.begun name rest) =
      Action.call effect word (machine.begun name rest) := by
  have found : (machine.begun name rest).dictionary.get? name = some (.defined effect word) := by
    rw [dictionary_begun, bound]
  exact Action.bind_of_ok (Action.lookup_of_some found)

/-! ### The built-in word that a step executes -/

/-- The built-in word that the next step executes, if it executes one, and the code below it. -/
def executing? (machine : Machine σ) : Option (Builtin × List Word) :=
  match machine.code with
  | .atom name :: rest =>
    match machine.dictionary.get? name with
    | some (.primitive builtin) => some (builtin, rest)
    | _ => none
  | _ => none

theorem executing?_of_primitive
    {builtin : Builtin}
    (next : machine.code = .atom name :: rest)
    (bound : machine.dictionary.get? name = some (.primitive builtin)) :
    machine.executing? = some (builtin, rest) := by
  simp only [executing?, next, bound]

theorem exists_atom_of_executing?
    {builtin : Builtin}
    (executing : machine.executing? = some (builtin, rest)) :
    ∃ name,
      machine.code = .atom name :: rest ∧
        machine.dictionary.get? name = some (.primitive builtin) := by
  unfold executing? at executing
  split at executing
  · rename_i name below code
    split at executing
    · rename_i found bound
      cases executing
      exact ⟨name, code, bound⟩
    · cases executing
  · cases executing

/-- The answer that the host has ready for a prompt with the word on top of the data stack. -/
def answer? (host : Host σ) (machine : Machine σ) : Option Reply :=
  machine.data.head?.map fun word => (host.prompt word.intoString machine.world).1

/-- The next step asks for a line when there is no more input. -/
def MeetsEndOfInput (host : Host σ) (machine : Machine σ) : Prop :=
  (∃ executed ∈ machine.executing?, executed.1 = .prompt) ∧
    machine.answer? host = some .endOfInput

instance (host : Host σ) (machine : Machine σ) : Decidable (machine.MeetsEndOfInput host) :=
  inferInstanceAs (Decidable (_ ∧ _))

end Machine

namespace Action

variable {σ : Type} {host : Host σ} {before after : Machine σ} {word : Word} {rest : List Word}

/-- A definition is refused if the data stack is not deep enough for its exact effect. -/
theorem call_of_shallow
    {effect : Effect}
    (word : Word)
    (exact : effect.exact = true)
    (shallow : before.data.length < effect.input) :
    call effect word before = .error (.eval .stackUnderflow) before := by
  unfold call
  rw [bind_of_ok (get_ok before), if_pos (by simp [exact, shallow])]
  rfl

/-- A definition that is not refused puts its body on the code stack. -/
theorem call_of_deep
    {effect : Effect}
    (body : List Word)
    (deep : effect.exact = true → effect.input ≤ before.data.length) :
    call effect (.list body) before = .ok () (before.mapStacks (Stacks.load body)) := by
  unfold call
  rw [bind_of_ok (get_ok before), if_neg (by simpa using deep)]
  rfl

/-- A definition that is no list puts its word on the code stack, if it is not refused. -/
theorem call_of_other
    {effect : Effect}
    (noList : word.isList = false)
    (deep : effect.exact = true → effect.input ≤ before.data.length) :
    call effect word before = .ok () (before.mapStacks (Stacks.put word)) := by
  unfold call
  rw [bind_of_ok (get_ok before), if_neg (by simpa using deep)]
  cases word with
  | list body => cases noList
  | atom | int | hex | str | dict => rfl

theorem perform_parse_of_ok
    {text : String}
    {words : List Word}
    (data : before.data = .str text :: rest)
    (parsed : Source.parse text = .ok words) :
    perform host .parse before =
      .ok ()
        { before with
          data := .list words :: rest
          journal := .pushed :: .popped (.str text) :: before.journal } := by
  refine (bind_of_ok (popAs_of_cons data (rfl : Word.asStr (.str text) = .ok text))).trans ?_
  simp only [parseText, parsed]
  rfl

/-- The fault of the word that reads a text in which there is no program. -/
def parsingFault : Source.ReadError → Fault
  | .flawed error => .eval (.badParse error)
  | .oversized digits => .oversized digits

theorem perform_parse_of_error
    {text : String}
    {error : Source.ReadError}
    (data : before.data = .str text :: rest)
    (flaw : Source.parse text = .error error) :
    perform host .parse before =
      .error (parsingFault error)
        { before with data := rest, journal := .popped (.str text) :: before.journal } := by
  refine (bind_of_ok (popAs_of_cons data (rfl : Word.asStr (.str text) = .ok text))).trans ?_
  cases error <;>
    · simp only [parseText, flaw]
      rfl

/-- A file is asked for by the path that lies on the data stack. -/
theorem perform_load
    {path : String}
    {answer : Except HostError String}
    {world : σ}
    (data : before.data = .str path :: rest)
    (answered : host.load path before.world = (answer, world)) :
    perform host .load before =
      (ofHost ("cannot load " ++ path) answer >>= fun text => push (.str text))
        { before with
          data := rest
          journal := .popped (.str path) :: before.journal
          log := .load path :: before.log
          world } := by
  refine (bind_of_ok (popAs_of_cons data (rfl : Word.asStr (.str path) = .ok path))).trans ?_
  simp only [Bind.bind, EStateM.bind, Action.load, answered]

/-- What a prompt does with the answer. -/
def concludePrompt : Reply → Action σ Unit
  | .line text => push (.str text)
  | .endOfInput => do
    halt
    push (.str "")
  | .interrupted => throw .interrupted

theorem perform_prompt
    {reply : Reply}
    {world : σ}
    (data : before.data = word :: rest)
    (answer : host.prompt word.intoString before.world = (reply, world)) :
    perform host .prompt before =
      concludePrompt reply
        { before with
          data := rest
          journal := .popped word :: before.journal
          log := .prompt word.intoString :: before.log
          world } := by
  have asked : Action.prompt host word.intoString
      { before with data := rest, journal := .popped word :: before.journal } =
      .ok reply
        { before with
          data := rest
          journal := .popped word :: before.journal
          log := .prompt word.intoString :: before.log
          world } := by
    simp only [Action.prompt, answer]
  refine (bind_of_ok (pop_of_cons data)).trans ((bind_of_ok asked).trans ?_)
  cases reply <;> rfl

/-- A prompt that is not made at the end of the input replaces the text that it shows by a line. -/
theorem exists_line_of_prompt
    (answered : before.answer? host ≠ some .endOfInput)
    (done : perform host .prompt before = .ok () after) :
    ∃ word rest text world,
      before.data = word :: rest ∧
        after =
          { before with
            data := .str text :: rest
            journal := .pushed :: .popped word :: before.journal
            log := .prompt word.intoString :: before.log
            world } := by
  obtain ⟨word, popped, pop, -⟩ := bind_eq_ok done
  obtain ⟨rest, data, -⟩ := exists_cons_of_pop pop
  cases answer : host.prompt word.intoString before.world with
  | mk reply world =>
      rw [perform_prompt data answer] at done
      cases reply with
      | line text =>
          cases done
          exact ⟨word, rest, text, world, data, rfl⟩
      | endOfInput => simp [Machine.answer?, data, answer] at answered
      | interrupted => cases done

end Action

namespace Machine

variable {σ : Type} {host : Host σ} {machine after : Machine σ}

/-- A definition puts its body on the code stack in place of its name. -/
theorem step_of_call
    (host : Host σ)
    {name : String}
    {effect : Effect}
    {body rest : List Word}
    (next : machine.code = .atom name :: rest)
    (bound : machine.dictionary.get? name = some (.defined effect (.list body)))
    (deep : effect.exact = true → effect.input ≤ machine.data.length) :
    machine.step host = .running ((machine.begun name rest).mapStacks (Stacks.load body)) := by
  have enough : effect.exact = true → effect.input ≤ (machine.begun name rest).data.length := by
    rwa [data_begun]
  exact step_of_execute_ok next ((execute_of_defined bound).trans (Action.call_of_deep body enough))

/-- A machine that asks for a line at the end of the input halts. -/
theorem step_of_endOfInput (meets : machine.MeetsEndOfInput host) :
    ∃ next, machine.step host = .running next ∧ next.code = [] ∧ next.recovery = [] := by
  obtain ⟨⟨⟨builtin, rest⟩, executing, asks⟩, answer⟩ := meets
  dsimp only at asks
  subst asks
  obtain ⟨name, code, bound⟩ := exists_atom_of_executing? executing
  obtain ⟨word, top, ended⟩ := Option.map_eq_some_iff.mp answer
  obtain ⟨below, data⟩ := List.head?_eq_some_iff.mp top
  have asked : (machine.begun name rest).data = word :: below := by rw [data_begun, data]
  have halts : host.prompt word.intoString (machine.begun name rest).world =
      (.endOfInput, (host.prompt word.intoString machine.world).2) := by
    rw [world_begun, ← ended]
  exact ⟨_, step_of_perform_ok code bound (Action.perform_prompt asked halts), rfl, rfl⟩

/-! ## Many steps -/

/-- The machine after a number of steps, or where the run ended before. -/
def reach (host : Host σ) : (steps : Nat) → Machine σ → Machine σ
  | 0, machine => machine
  | steps + 1, machine =>
    match machine.step host with
    | .running next => reach host steps next
    | .ended outcome => ofOutcome outcome

theorem reach_of_running
    {next : Machine σ}
    (progress : machine.step host = .running next)
    (steps : Nat) :
    machine.reach host (steps + 1) = next.reach host steps := by
  simp only [reach, progress]

theorem reach_of_ended
    {outcome : Outcome σ}
    (progress : machine.step host = .ended outcome)
    (steps : Nat) :
    machine.reach host (steps + 1) = ofOutcome outcome := by
  simp only [reach, progress]

/-- The machine gets from one state to another in a number of steps, none of which ends the run. -/
inductive Advances (host : Host σ) : Nat → Machine σ → Machine σ → Prop where
  | start (machine : Machine σ) : Advances host 0 machine machine
  | step {steps : Nat} {before next after : Machine σ}
      (progress : before.step host = .running next)
      (later : Advances host steps next after) :
      Advances host (steps + 1) before after

namespace Advances

variable {steps : Nat} {before middle : Machine σ}

theorem trans
    {more : Nat}
    (earlier : Advances host steps before middle)
    (later : Advances host more middle after) :
    Advances host (steps + more) before after := by
  induction earlier with
  | start => rwa [Nat.zero_add]
  | step progress _ inductionHypothesis =>
      rw [Nat.succ_add]
      exact .step progress (inductionHypothesis later)

/-- A run goes on from every state that it reaches. -/
theorem run_eq
    (advances : Advances host steps before after)
    (more : Nat) :
    run host (steps + more) before = run host more after := by
  induction advances with
  | start => rw [Nat.zero_add]
  | step progress _ inductionHypothesis =>
      rw [Nat.succ_add, run_of_running progress, inductionHypothesis]

theorem run_eq_ended
    {outcome : Outcome σ}
    (advances : Advances host steps before after)
    (ended : after.step host = .ended outcome) :
    run host (steps + 1) before = some outcome := by
  rw [advances.run_eq, run_of_ended ended]

/-- A run that takes so many steps is not over after so many. -/
theorem run_eq_none (advances : Advances host steps before after) :
    run host steps before = none :=
  advances.run_eq 0

/-- A state that a run passes through takes a step that does not end the run. -/
theorem exists_running
    {total : Nat}
    {last : Machine σ}
    (advances : Advances host steps before middle)
    (whole : Advances host total before last)
    (passed : steps < total) :
    ∃ next, middle.step host = .running next := by
  induction advances generalizing total with
  | start =>
      cases whole with
      | start => exact absurd passed (Nat.not_lt_zero _)
      | step progress _ => exact ⟨_, progress⟩
  | step progress _ inductionHypothesis =>
      cases whole with
      | start => exact absurd passed (Nat.not_lt_zero _)
      | step progressed later =>
          rw [progress] at progressed
          cases progressed
          exact inductionHypothesis later (Nat.lt_of_succ_lt_succ passed)

end Advances

/-- The machine never comes to the end of its run. -/
def Endless (host : Host σ) (machine : Machine σ) : Prop :=
  ∀ count, ∃ steps after, count ≤ steps ∧ Advances host steps machine after

namespace Endless

/-- In an endless run there is always a word to execute. -/
theorem code_ne_nil
    {steps : Nat}
    {state : Machine σ}
    (endless : machine.Endless host)
    (advances : Advances host steps machine state) :
    state.code ≠ [] := by
  obtain ⟨total, last, enough, whole⟩ := endless (steps + 1)
  obtain ⟨next, progress⟩ := advances.exists_running whole enough
  intro done
  rw [step_of_no_code done] at progress
  cases progress

/-- An endless run has no outcome. -/
theorem run_eq_none (endless : machine.Endless host) (steps : Nat) :
    run host steps machine = none := by
  obtain ⟨total, last, enough, whole⟩ := endless steps
  cases finished : run host steps machine with
  | none => rfl
  | some outcome =>
      have later := run_add finished (total - steps)
      rw [Nat.add_sub_cancel' enough, whole.run_eq_none] at later
      cases later

end Endless

theorem evaluate_of_parse
    (host : Host σ)
    (steps : Nat)
    {text : String}
    {words : List Word}
    (parsed : Source.parse text = .ok words)
    (machine : Machine σ) :
    machine.evaluate host steps text =
      run host steps { machine with code := words.reverse ++ machine.code } := by
  simp only [evaluate, parsed]

/-- A text that is evaluated cannot be read, or its words are run. -/
theorem evaluate_eq_some
    {steps : Nat}
    {text : String}
    {outcome : Outcome σ}
    (finished : machine.evaluate host steps text = some outcome) :
    (∃ error, Source.parse text = .error error ∧
        outcome = .error (.ofReadError error) machine) ∨
      ∃ words, Source.parse text = .ok words ∧
        run host steps { machine with code := words.reverse ++ machine.code } = some outcome := by
  cases parsed : Source.parse text with
  | error error =>
      simp only [evaluate, parsed] at finished
      exact .inl ⟨error, rfl, (Option.some.inj finished).symm⟩
  | ok words =>
      rw [evaluate_of_parse host steps parsed] at finished
      exact .inr ⟨words, rfl, finished⟩

/-- A run that is over has reached a state in which a step ended it. -/
theorem exists_advances_of_run
    {steps : Nat}
    {outcome : Outcome σ}
    (finished : run host steps machine = some outcome) :
    ∃ count last, Advances host count machine last ∧ last.step host = .ended outcome := by
  induction steps generalizing machine with
  | zero => cases finished
  | succ steps inductionHypothesis =>
      cases progress : machine.step host with
      | running next =>
          rw [run_of_running progress] at finished
          obtain ⟨count, last, advances, ended⟩ := inductionHypothesis finished
          exact ⟨count + 1, last, .step progress advances, ended⟩
      | ended final =>
          rw [run_of_ended progress] at finished
          cases finished
          exact ⟨0, machine, .start machine, progress⟩

/-- Every state in which a run takes a step has a property. -/
def Throughout (host : Host σ) (property : Machine σ → Prop) (machine : Machine σ) : Prop :=
  ∀ steps state, Advances host steps machine state → property state

/-- Every state in which the evaluation of a text takes a step has a property. -/
def ThroughoutEvaluation
    (host : Host σ)
    (text : String)
    (property : Machine σ → Prop)
    (machine : Machine σ) :
    Prop :=
  ∀ words, Source.parse text = .ok words →
    { machine with code := words.reverse ++ machine.code }.Throughout host property

theorem throughoutEvaluation_of_parse
    {property : Machine σ → Prop}
    {text : String}
    {words : List Word}
    (parsed : Source.parse text = .ok words)
    (always : { machine with code := words.reverse ++ machine.code }.Throughout host property) :
    machine.ThroughoutEvaluation host text property := by
  intro other denoted
  rw [parsed] at denoted
  cases denoted
  exact always

namespace Throughout

variable {property : Machine σ → Prop} {next : Machine σ}

theorem here (always : machine.Throughout host property) : property machine :=
  always 0 machine (.start machine)

theorem later
    (always : machine.Throughout host property)
    (progress : machine.step host = .running next) :
    next.Throughout host property :=
  fun steps state advances => always (steps + 1) state (.step progress advances)

theorem of_running
    (now : property machine)
    (progress : machine.step host = .running next)
    (later : next.Throughout host property) :
    machine.Throughout host property := by
  intro steps state advances
  cases advances with
  | start => exact now
  | step progressed rest =>
      rw [progress] at progressed
      cases progressed
      exact later _ state rest

theorem of_ended
    {outcome : Outcome σ}
    (now : property machine)
    (progress : machine.step host = .ended outcome) :
    machine.Throughout host property := by
  intro steps state advances
  cases advances with
  | start => exact now
  | step progressed rest =>
      rw [progress] at progressed
      cases progressed

end Throughout

end Machine
end Concatenative
