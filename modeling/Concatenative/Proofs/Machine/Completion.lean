import Concatenative.Proofs.Machine.Frame
import Concatenative.Proofs.Machine.Mirroring
import Concatenative.Proofs.Machine.Region

/-!
# Regions that come to their end

A protected region runs its body above the word that closes the region, with its own snapshot around
the body. A body that keeps to its own code and regions does not notice either of them. So if the
body comes to its end when it is run by itself, it does so in the region, where the closing word
then removes the snapshot: the region has done what the body does, and its handler has not been
used.
-/

namespace Concatenative
namespace Machine

variable {σ : Type} {host : Host σ} {machine other next after : Machine σ}
variable {steps : Nat}

/-! ## The words that are executed -/

/-- The words that a run executes in a number of steps, first one first. -/
def executes (host : Host σ) : (steps : Nat) → Machine σ → List Word
  | 0, _ => []
  | steps + 1, machine =>
    machine.code.take 1 ++
      match machine.step host with
      | .running next => executes host steps next
      | .ended _ => []

theorem executes_of_running
    {word : Word}
    {rest : List Word}
    (code : machine.code = word :: rest)
    (progress : machine.step host = .running next)
    (steps : Nat) :
    machine.executes host (steps + 1) = word :: next.executes host steps := by
  simp only [executes, code, progress, List.take_succ_cons, List.take_zero, List.singleton_append]

/-- A step that does not end the run executes a word. -/
theorem exists_cons_of_running (progress : machine.step host = .running next) :
    ∃ word rest, machine.code = word :: rest := by
  cases code : machine.code with
  | nil =>
      rw [step_of_no_code code] at progress
      cases progress
  | cons word rest => exact ⟨word, rest, rfl⟩

/-- A run executes what it executes up to some state, and then what it executes from there. -/
theorem Advances.executes_add
    (advances : Advances host steps machine after)
    (more : Nat) :
    machine.executes host (steps + more) =
      machine.executes host steps ++ after.executes host more := by
  induction advances with
  | start => rw [Nat.zero_add, executes, List.nil_append]
  | step progress _ inductionHypothesis =>
      obtain ⟨word, rest, code⟩ := exists_cons_of_running progress
      rw [Nat.succ_add, executes_of_running code progress, executes_of_running code progress,
        inductionHypothesis, List.cons_append]

/-- Machines that look the same execute the same words. -/
theorem Mirrors.executes_eq
    {earlier : List Event}
    (mirrors : machine.Mirrors earlier other)
    (advances : Advances host steps machine after) :
    other.executes host steps = machine.executes host steps := by
  induction advances generalizing other with
  | start => rfl
  | step progress _ inductionHypothesis =>
      obtain ⟨word, rest, code⟩ := exists_cons_of_running progress
      obtain ⟨later, progressToo, same⟩ := mirrors.step progress
      rw [executes_of_running code progress,
        executes_of_running (mirrors.code.trans code) progressToo, inductionHypothesis same]

/-- Steps that keep to the machine's own code and regions execute the same words whatever lies
below. -/
theorem Advances.executes_atop
    (below : List Word)
    (around : List Snapshot)
    (advances : Advances host steps machine after)
    (confined : machine.Throughout host (Confined host)) :
    (machine.atop below around).executes host steps = machine.executes host steps := by
  induction advances with
  | start => rfl
  | step progress _ inductionHypothesis =>
      obtain ⟨word, rest, code⟩ := exists_cons_of_running progress
      have above := step_atop below around confined.here progress
      rw [executes_of_running code progress,
        executes_of_running (code_atop code below around) above,
        inductionHypothesis (confined.later progress)]

/-! ## The body by itself -/

/-- The machine that runs a body by itself, with some data: there is nothing else to execute, no
region is open, and no call has been made. -/
def isolated (data body : List Word) (machine : Machine σ) : Machine σ :=
  { machine with data, code := body.reverse, recovery := [], log := [] }

variable {name : String} {body handler data code : List Word}

/-- The machine that has entered a region looks like the machine that runs the body by itself, above
the closing word and inside the region. -/
theorem step_enters_body
    (host : Host σ)
    (next : machine.code = .atom name :: code)
    (bound : machine.dictionary.get? name = some (.primitive .protect))
    (operands : machine.data = .list body :: .list handler :: data) :
    ∃ entered,
      machine.step host = .running entered ∧
      ((machine.isolated data body).atop (.atom Builtin.unprotect.name :: code)
        (⟨machine.dictionary, data, handler.reverse ++ code⟩ :: machine.recovery)).Mirrors
          machine.calls entered := by
  have lists : (machine.begun name code).data = .list body :: .list handler :: data := by
    rw [data_begun, operands]
  obtain ⟨journal, performed⟩ := Action.perform_protect host lists
  refine ⟨_, step_of_perform_ok next bound performed, ?_⟩
  rw [code_begun, dictionary_begun, recovery_begun]
  exact ⟨rfl, rfl, rfl, rfl, world_begun, calls_begun⟩

/-- The closing word removes the snapshot of the region and does nothing else. -/
theorem step_closes
    {snapshot : Snapshot}
    {outer : List Snapshot}
    (host : Host σ)
    (next : machine.code = .atom name :: code)
    (bound : machine.dictionary.get? name = some (.primitive .unprotect))
    (regions : machine.recovery = snapshot :: outer) :
    machine.step host = .running { machine.begun name code with recovery := outer } := by
  refine step_of_perform_ok next bound ?_
  have left : Action.perform host .unprotect (machine.begun name code) =
      .ok () { machine.begun name code with
        recovery := (machine.begun name code).recovery.drop 1 } := rfl
  rw [left, recovery_begun, regions, List.drop_succ_cons, List.drop_zero]

/-- A region whose body succeeds is transparent. Suppose that a body, run by itself on the data
below the two lists, comes to its end with no region left open and without reaching beyond its own
code and regions, and that the closing word still has its meaning then. Then the word that opens a
region for the body, over any code and inside any regions, leads to the data, the meanings of names
and the state of the host that the body leaves, with the code and the regions as they were and with
the calls of the body. The words that are executed on the way are that word, those that the body
executes by itself, and the closing word; none comes from the handler. -/
theorem region_is_transparent
    {final : Machine σ}
    (next : machine.code = .atom name :: code)
    (bound : machine.dictionary.get? name = some (.primitive .protect))
    (operands : machine.data = .list body :: .list handler :: data)
    (finished : run host steps (machine.isolated data body) = some (.ok () final))
    (closed : final.recovery = [])
    (confined : (machine.isolated data body).Throughout host (Confined host))
    (closing : final.dictionary.get? Builtin.unprotect.name = some (.primitive .unprotect)) :
    ∃ count reached,
      run host (count + 1) (machine.isolated data body) = some (.ok () final) ∧
      Advances host (count + 2) machine reached ∧
      reached.data = final.data ∧
      reached.dictionary = final.dictionary ∧
      reached.code = code ∧
      reached.recovery = machine.recovery ∧
      reached.world = final.world ∧
      reached.calls = final.calls ++ machine.calls ∧
      machine.executes host (count + 2) =
        .atom name :: (machine.isolated data body).executes host count ++
          [.atom Builtin.unprotect.name] := by
  obtain ⟨count, last, advances, ended⟩ := exists_advances_of_run finished
  obtain ⟨noCode, rfl⟩ := eq_commit_of_step_ended ended
  obtain ⟨entered, enters, mirrors⟩ := step_enters_body host next bound operands
  let below : List Word := .atom Builtin.unprotect.name :: code
  let around : List Snapshot :=
    ⟨machine.dictionary, data, handler.reverse ++ code⟩ :: machine.recovery
  -- The body takes its steps in the region as it does by itself, up to its end.
  have above : Advances host count ((machine.isolated data body).atop below around)
      (last.atop below around) :=
    advances.atop below around fun earlier state _ reached => confined earlier state reached
  obtain ⟨later, further, same⟩ := mirrors.advances above
  have atEnd : later.code = .atom Builtin.unprotect.name :: code := by
    rw [same.code, atop, noCode]
    rfl
  have inside : later.recovery = around := by
    have regions : last.recovery = [] := closed
    rw [same.recovery, atop, regions]
    rfl
  have boundStill : later.dictionary.get? Builtin.unprotect.name =
      some (.primitive .unprotect) := by
    rw [same.dictionary]
    exact closing
  have closes := step_closes host atEnd boundStill inside
  have whole : Advances host (count + 2) machine _ :=
    .step enters (further.trans (.step closes (.start _)))
  refine ⟨count, _, advances.run_eq_ended ended, whole, ?_, ?_, ?_, rfl, ?_, ?_, ?_⟩
  · exact data_begun.trans same.data
  · exact dictionary_begun.trans same.dictionary
  · exact code_begun
  · exact world_begun.trans same.world
  · exact calls_begun.trans same.calls
  · have middle := mirrors.executes_eq above
    rw [advances.executes_atop below around confined] at middle
    rw [executes_of_running next enters, further.executes_add, middle,
      executes_of_running atEnd closes]
    rfl

/-- A body that recovers from a failure of its own, above other code and inside another region. -/
theorem region_is_transparent_recovering :
    let body : List Word := [.atom "try", .list [.atom "drop"], .list [.atom "echo"]]
    let outer : Snapshot := ⟨[], [.int 1], [.atom "eval"]⟩
    let machine : Machine Answer :=
      { Library.bare false {} with
        data := [.list body, .list [.atom "bye"]]
        code := [.atom "try", .int 2]
        recovery := [outer] }
    ∃ count reached,
      Advances Answer.host (count + 2) machine reached ∧
      reached.data = [] ∧
      reached.code = [.int 2] ∧
      reached.recovery = [outer] ∧
      reached.calls = [.echo "drop error: stack underflow"] ∧
      machine.executes Answer.host (count + 2) =
        .atom "try" :: (machine.isolated [] body).executes Answer.host count ++
          [.atom "popeh"] := by
  intro body outer machine
  have finished : run Answer.host 6 (machine.isolated [] body) = some (.ok () _) := rfl
  have confined : (machine.isolated [] body).Throughout Answer.host (Confined Answer.host) := by
    iterate 5 refine .of_running (of_decide_eq_true rfl) rfl ?_
    exact .of_ended (of_decide_eq_true rfl) rfl
  obtain ⟨count, reached, -, advances, data, -, code, recovery, -, calls, words⟩ :=
    region_is_transparent rfl rfl rfl finished rfl confined rfl
  exact ⟨count, reached, advances, data, code, recovery, calls, words⟩

end Machine
end Concatenative
