import Concatenative.Proofs.Machine.Failure

/-!
# Machines that look the same

What a machine does depends on its stacks, its dictionary, its recovery stack and its host. So two
machines that agree in these take the same steps and make the same calls, whatever happened before,
whether they trace or not, and whatever their journals hold.
-/

namespace Concatenative

/-- The lines of the trace are left out, and other calls come before. -/
def Retelling.hushed (earlier : List Event) : Retelling where
  log log := (log.filter fun event => !event.isTrace) ++ earlier
  tracing _ := false
  call event past call := by simp [call]

namespace Machine

variable {σ : Type} {host : Host σ} {machine other next : Machine σ} {earlier : List Event}
variable {name : String} {rest : List Word} {error : EvalError}

/-- One machine looks like another one, but for calls that were made before those of the other. -/
structure Mirrors (earlier : List Event) (machine other : Machine σ) : Prop where
  /-- The data stack is the same. -/
  data : other.data = machine.data
  /-- The code stack is the same. -/
  code : other.code = machine.code
  /-- Names mean the same. -/
  dictionary : other.dictionary = machine.dictionary
  /-- The same protected regions are open. -/
  recovery : other.recovery = machine.recovery
  /-- The host is in the same state. -/
  world : other.world = machine.world
  /-- The calls are the same but for earlier ones. -/
  calls : other.calls = machine.calls ++ earlier

/-- One run ends like another one: both normally or with the same fault, on machines that look the
same but for earlier calls. -/
inductive EndsLike (earlier : List Event) : Outcome σ → Outcome σ → Prop where
  | ok {machine other : Machine σ} (mirrors : machine.Mirrors earlier other) :
      EndsLike earlier (.ok () machine) (.ok () other)
  | error {fault : Fault} {machine other : Machine σ} (mirrors : machine.Mirrors earlier other) :
      EndsLike earlier (.error fault machine) (.error fault other)

theorem exists_ok_of_rel
    {result : Option (Outcome σ)}
    (like : Option.Rel (EndsLike earlier) (some (.ok () machine)) result) :
    ∃ final, result = some (.ok () final) ∧ machine.Mirrors earlier final := by
  cases like with
  | some like =>
      cases like with
      | ok mirrors => exact ⟨_, rfl, mirrors⟩

theorem mirrors_of_retold
    (same : other.retold (.hushed []) = machine.retold (.hushed earlier)) :
    machine.Mirrors earlier other where
  data := congrArg (fun retold => retold.data) same
  code := congrArg (fun retold => retold.code) same
  dictionary := congrArg (fun retold => retold.dictionary) same
  recovery := congrArg (fun retold => retold.recovery) same
  world := congrArg (fun retold => retold.world) same
  calls := by
    have logs : other.calls ++ [] = machine.calls ++ earlier :=
      congrArg (fun retold => retold.log) same
    rwa [List.append_nil] at logs

theorem retold_begun (earlier : List Event) :
    (machine.begun name rest).retold (.hushed earlier) =
      { machine with
        code := rest
        journal := []
        tracing := false
        log := machine.calls ++ earlier } := by
  rw [← calls_begun, begun_eq]
  rfl

theorem calls_recover (snapshot : Snapshot) (outer : List Snapshot) :
    (machine.recover name error snapshot outer).calls = machine.calls := by
  cases tracing : machine.tracing <;>
    simp [recover, trace, note, mapStacks, calls, Event.isTrace, tracing]

namespace Mirrors

theorem refl (machine : Machine σ) : machine.Mirrors [] machine :=
  ⟨rfl, rfl, rfl, rfl, rfl, (List.append_nil _).symm⟩

/-- Two machines that look the same look the same when they begin to execute an atom. Then they
differ in the log and in tracing alone, since their journals are empty. -/
theorem begun
    (mirrors : machine.Mirrors earlier other)
    (name : String)
    (rest : List Word) :
    (other.begun name rest).retold (.hushed []) =
      (machine.begun name rest).retold (.hushed earlier) := by
  rw [retold_begun, retold_begun, List.append_nil]
  simp only [mirrors.data, mirrors.dictionary, mirrors.recovery, mirrors.world, mirrors.calls]

/-- Executing an atom has the same result on machines that look the same. -/
theorem execute
    (mirrors : machine.Mirrors earlier other)
    (host : Host σ)
    (name : String)
    (rest : List Word) :
    Action.mapFinal (retold (.hushed [])) (Action.execute host name (other.begun name rest)) =
      Action.mapFinal (retold (.hushed earlier))
        (Action.execute host name (machine.begun name rest)) := by
  have staged := Action.execute_staged host name
  rw [← staged.retold, ← staged.retold, mirrors.begun]

theorem execute_ok
    {after : Machine σ}
    (mirrors : machine.Mirrors earlier other)
    (done : Action.execute host name (machine.begun name rest) = .ok () after) :
    ∃ later,
      Action.execute host name (other.begun name rest) = .ok () later ∧
        after.Mirrors earlier later := by
  have results := mirrors.execute host name rest
  rw [done] at results
  cases result : Action.execute host name (other.begun name rest) with
  | ok value later =>
      rw [result] at results
      injection results with _ same
      exact ⟨later, rfl, mirrors_of_retold same⟩
  | error fault failed =>
      rw [result] at results
      cases results

theorem execute_error
    {fault : Fault}
    {failed : Machine σ}
    (mirrors : machine.Mirrors earlier other)
    (failure : Action.execute host name (machine.begun name rest) = .error fault failed) :
    ∃ failedToo,
      Action.execute host name (other.begun name rest) = .error fault failedToo ∧
        failed.Mirrors earlier failedToo := by
  have results := mirrors.execute host name rest
  rw [failure] at results
  cases result : Action.execute host name (other.begun name rest) with
  | ok value later =>
      rw [result] at results
      cases results
  | error otherFault failedToo =>
      rw [result] at results
      injection results with faults same
      exact ⟨failedToo, by rw [faults], mirrors_of_retold same⟩

/-- A region that is left after a failure is left in the same way. -/
theorem recover
    (mirrors : machine.Mirrors earlier other)
    (snapshot : Snapshot)
    (outer : List Snapshot) :
    (machine.recover name error snapshot outer).Mirrors earlier
      (other.recover name error snapshot outer) := by
  refine ⟨?_, ?_, ?_, ?_, ?_, ?_⟩
  · rw [data_recover, data_recover]
  · rw [code_recover, code_recover]
  · rw [dictionary_recover, dictionary_recover]
  · rw [recovery_recover, recovery_recover]
  · rw [world_recover, world_recover, mirrors.world]
  · rw [calls_recover, calls_recover, mirrors.calls]

/-- A machine that looks like another one takes the same step. -/
theorem step
    (mirrors : machine.Mirrors earlier other)
    (progress : machine.step host = .running next) :
    ∃ later, other.step host = .running later ∧ next.Mirrors earlier later := by
  have takes := step_takes host machine
  rw [progress] at takes
  cases takes with
  | shifted word rest literal code =>
      refine ⟨_, step_of_literal literal (mirrors.code.trans code), ?_⟩
      exact ⟨congrArg (word :: ·) mirrors.data, rfl, mirrors.dictionary, mirrors.recovery,
        mirrors.world, mirrors.calls⟩
  | executed name rest after code done =>
      obtain ⟨later, doneToo, same⟩ := mirrors.execute_ok done
      exact ⟨later, step_of_execute_ok (mirrors.code.trans code) doneToo, same⟩
  | recovered name rest error failed snapshot outer code failure regions =>
      obtain ⟨failedToo, failureToo, same⟩ := mirrors.execute_error failure
      have regionsToo := same.recovery.trans regions
      exact ⟨_, step_of_failure_inside (mirrors.code.trans code) failureToo regionsToo,
        same.recover snapshot outer⟩

theorem advances
    {steps : Nat}
    {after : Machine σ}
    (mirrors : machine.Mirrors earlier other)
    (advances : Advances host steps machine after) :
    ∃ later, Advances host steps other later ∧ after.Mirrors earlier later := by
  induction advances generalizing other with
  | start => exact ⟨other, .start other, mirrors⟩
  | step progress _ inductionHypothesis =>
      obtain ⟨next, progressToo, same⟩ := mirrors.step progress
      obtain ⟨later, advances, mirrorsLater⟩ := inductionHypothesis same
      exact ⟨later, .step progressToo advances, mirrorsLater⟩

/-- Calls that come before those of a machine come before those of all that look like it. -/
theorem trans
    {before : List Event}
    {third : Machine σ}
    (first : machine.Mirrors earlier other)
    (second : other.Mirrors before third) :
    machine.Mirrors (earlier ++ before) third where
  data := second.data.trans first.data
  code := second.code.trans first.code
  dictionary := second.dictionary.trans first.dictionary
  recovery := second.recovery.trans first.recovery
  world := second.world.trans first.world
  calls := by rw [second.calls, first.calls, List.append_assoc]

/-- A machine that looks like another one ends its run in the same way. -/
theorem step_ended
    {outcome : Outcome σ}
    (mirrors : machine.Mirrors earlier other)
    (ended : machine.step host = .ended outcome) :
    ∃ result, other.step host = .ended result ∧ EndsLike earlier outcome result := by
  have takes := step_takes host machine
  rw [ended] at takes
  cases takes with
  | finished done =>
      refine ⟨_, step_of_no_code (mirrors.code.trans done), .ok ?_⟩
      exact ⟨mirrors.data, mirrors.code, mirrors.dictionary, mirrors.recovery, mirrors.world,
        mirrors.calls⟩
  | abandoned name rest error failed code failure regions =>
      obtain ⟨failedToo, failureToo, -⟩ := mirrors.execute_error failure
      have rewinds := (Action.execute_staged host name).rewinds failure
      rw [rewinds.recovery_eq, recovery_begun] at regions
      have codeToo := mirrors.code.trans code
      rw [step_withdraws regions code failure] at ended
      rw [← Progress.ended.inj ended]
      refine ⟨_, step_withdraws (mirrors.recovery.trans regions) codeToo failureToo, .error ?_⟩
      have before := withdrawn_untouched code
      have beforeToo := withdrawn_untouched codeToo
      refine ⟨?_, rfl, ?_, ?_, ?_, ?_⟩
      · rw [before.data, beforeToo.data, mirrors.data]
      · rw [before.dictionary, beforeToo.dictionary, mirrors.dictionary]
      · rw [before.recovery, beforeToo.recovery, mirrors.recovery]
      · rw [before.world, beforeToo.world, mirrors.world]
      · rw [before.calls, beforeToo.calls, mirrors.calls]
  | broken name rest fault failed code failure foreign =>
      obtain ⟨failedToo, failureToo, same⟩ := mirrors.execute_error failure
      exact ⟨_, step_of_foreign_fault (mirrors.code.trans code) failureToo foreign, .error same⟩

/-- Machines that look the same come to the same end in the same number of steps. -/
theorem run
    (mirrors : machine.Mirrors earlier other)
    (host : Host σ)
    (steps : Nat) :
    Option.Rel (EndsLike earlier) (Machine.run host steps machine)
      (Machine.run host steps other) := by
  induction steps generalizing machine other with
  | zero => exact .none
  | succ steps inductionHypothesis =>
      cases progress : machine.step host with
      | running next =>
          obtain ⟨later, progressToo, same⟩ := mirrors.step progress
          rw [run_of_running progress, run_of_running progressToo]
          exact inductionHypothesis same
      | ended outcome =>
          obtain ⟨result, endedToo, like⟩ := mirrors.step_ended progress
          rw [run_of_ended progress, run_of_ended endedToo]
          exact .some like

/-- A text is evaluated in the same way on machines that look the same. -/
theorem evaluate
    (mirrors : machine.Mirrors earlier other)
    (host : Host σ)
    (steps : Nat)
    (text : String) :
    Option.Rel (EndsLike earlier) (machine.evaluate host steps text)
      (other.evaluate host steps text) := by
  cases parsed : Source.parse text with
  | error error =>
      simp only [Machine.evaluate, parsed]
      exact .some (.error mirrors)
  | ok words =>
      rw [evaluate_of_parse host steps parsed, evaluate_of_parse host steps parsed, mirrors.code]
      refine Mirrors.run ?_ host steps
      exact ⟨mirrors.data, rfl, mirrors.dictionary, mirrors.recovery, mirrors.world, mirrors.calls⟩

end Mirrors

/-- All machines that look like one get to machines that look like another one. -/
def Leads (host : Host σ) (before after : Machine σ) : Prop :=
  ∀ other, before.Mirrors [] other →
    ∃ steps later, Advances host steps other later ∧ after.Mirrors [] later

namespace Leads

variable {before middle after : Machine σ}

theorem refl (machine : Machine σ) : Leads host machine machine :=
  fun other mirrors => ⟨0, other, .start other, mirrors⟩

theorem trans (earlier : Leads host before middle) (later : Leads host middle after) :
    Leads host before after := by
  intro other mirrors
  obtain ⟨steps, reached, advances, same⟩ := earlier other mirrors
  obtain ⟨more, last, further, sameToo⟩ := later reached same
  exact ⟨steps + more, last, advances.trans further, sameToo⟩

/-- A step leads to every machine that looks like the one that it leaves. -/
theorem of_step
    (progress : before.step host = .running next)
    (same : after.Mirrors [] next) :
    Leads host before after := by
  intro other mirrors
  obtain ⟨later, progressToo, mirrorsLater⟩ := mirrors.step progress
  exact ⟨1, later, .step progressToo (.start later), same.trans mirrorsLater⟩

/-- A run that leads to a machine comes to the same end as every machine that looks like it, after
the steps that it takes to get there. -/
theorem exists_run
    (leads : Leads host before after)
    (begins : before.Mirrors [] other)
    (mirrors : machine.Mirrors earlier after) :
    ∃ lead, ∀ steps,
      Option.Rel (EndsLike earlier) (run host steps machine) (run host (lead + steps) other) := by
  obtain ⟨lead, later, advances, same⟩ := leads other begins
  refine ⟨lead, fun steps => ?_⟩
  have whole : machine.Mirrors earlier later := by
    rw [← List.append_nil earlier]
    exact mirrors.trans same
  rw [advances.run_eq]
  exact whole.run host steps

/-- A run that leads to a machine whose run is over is over soon after. -/
theorem exists_ended
    {outcome : Outcome σ}
    (leads : Leads host before after)
    (begins : before.Mirrors [] other)
    (ended : after.step host = .ended outcome) :
    ∃ lead result,
      (∀ steps, run host (lead + steps) other = some result) ∧ EndsLike [] outcome result := by
  obtain ⟨lead, later, advances, same⟩ := leads other begins
  obtain ⟨result, endedToo, like⟩ := same.step_ended ended
  exact ⟨lead + 1, result, run_add (advances.run_eq_ended endedToo), like⟩

/-- A run that leads to an atom that fails outside all protected regions fails like it. -/
theorem exists_failed
    {fault : Fault}
    {failed : Machine σ}
    (leads : Leads host before after)
    (begins : before.Mirrors [] other)
    (unprotected : after.recovery = [])
    (next : after.code = .atom name :: rest)
    (failure : Action.execute host name (after.begun name rest) = .error fault failed) :
    ∃ lead final, ∀ steps, run host (lead + steps) other = some (.error fault final) := by
  obtain ⟨final, ended⟩ := exists_ended_of_failure unprotected next failure
  obtain ⟨lead, result, runs, like⟩ := leads.exists_ended begins ended
  cases like with
  | error mirrors => exact ⟨lead, _, runs⟩

end Leads

/-! ## Tracing -/

/-- No atom turns tracing on or off. -/
theorem tracing_execute (host : Host σ) (name : String) (machine : Machine σ) :
    ((Action.execute host name).leaves machine).tracing = machine.tracing := by
  -- Telling that the machine traces as it does tells nothing new, before the atom and so after it.
  let known : Retelling := ⟨fun log => log, fun _ => machine.tracing, fun _ _ _ => rfl⟩
  have told : Action.execute host name machine =
      Action.mapFinal (retold known) (Action.execute host name machine) :=
    (Action.execute_staged host name).retold known machine
  cases result : Action.execute host name machine with
  | ok value after =>
      rw [result] at told
      injection told with _ same
      rw [Action.leaves_of_ok result, same]
      rfl
  | error fault failed =>
      rw [result] at told
      injection told with _ same
      rw [Action.leaves_of_error result, same]
      rfl

@[simp] theorem tracing_begun : (machine.begun name rest).tracing = machine.tracing := by
  cases tracing : machine.tracing <;> simp [begun, trace, note, mapStacks, tracing]

@[simp] theorem tracing_recover (snapshot : Snapshot) (outer : List Snapshot) :
    (machine.recover name error snapshot outer).tracing = machine.tracing := by
  cases tracing : machine.tracing <;> simp [recover, trace, note, mapStacks, tracing]

theorem tracing_of_step (progress : machine.step host = .running next) :
    next.tracing = machine.tracing := by
  have takes := step_takes host machine
  rw [progress] at takes
  cases takes with
  | shifted => rfl
  | executed name rest after code done =>
      have kept := tracing_execute host name (machine.begun name rest)
      rwa [Action.leaves_of_ok done, tracing_begun] at kept
  | recovered name rest error failed snapshot outer code failure =>
      have kept := tracing_execute host name (machine.begun name rest)
      rw [Action.leaves_of_error failure, tracing_begun] at kept
      rw [tracing_recover, kept]

/-- A run traces throughout or not at all. -/
theorem Advances.tracing_eq
    {steps : Nat}
    {after : Machine σ}
    (advances : Advances host steps machine after) :
    after.tracing = machine.tracing := by
  induction advances with
  | start => rfl
  | step progress _ inductionHypothesis =>
      rw [inductionHypothesis, tracing_of_step progress]

end Machine
end Concatenative
