import Concatenative.Proofs.Library
import Concatenative.Proofs.Machine.Powers
import Concatenative.Proofs.Machine.Region

/-!
# Reachable machines

The states that a machine comes to when sources are evaluated on it one after the other. All their
dictionaries, and those to which open regions would go back, arise from the dictionary of the library
by definitions: so a property of dictionaries that every definition keeps holds in all these states.
-/

namespace Concatenative

/-- A machine rests between two sources, and it runs while one is evaluated. -/
inductive Phase where
  | resting
  | running

namespace Machine

variable {σ : Type} {host : Host σ} {machine before middle after : Machine σ}

/-- A state of a machine on which sources have been evaluated since it was fresh, with the states
before it, latest first. A source that cannot be read leaves the machine in the same state. -/
inductive Reached (host : Host σ) : Phase → List (Machine σ) → Machine σ → Prop where
  /-- A machine begins with the words of the library. -/
  | fresh (tracing : Bool) (world : σ) :
      Reached host .resting [] (Library.fresh host tracing world)
  /-- The words of a source are put on the code stack. -/
  | read {past : List (Machine σ)} {machine : Machine σ} {text : String} {words : List Word}
      (earlier : Reached host .resting past machine)
      (parsed : Source.parse text = .ok words) :
      Reached host .running (machine :: past)
        { machine with code := words.reverse ++ machine.code }
  /-- A step is taken. -/
  | step {past : List (Machine σ)} {machine next : Machine σ}
      (earlier : Reached host .running past machine)
      (progress : machine.step host = .running next) :
      Reached host .running (machine :: past) next
  /-- The run ends, normally or with a fault. -/
  | ended {past : List (Machine σ)} {machine : Machine σ} {outcome : Outcome σ}
      (earlier : Reached host .running past machine)
      (progress : machine.step host = .ended outcome) :
      Reached host .resting (machine :: past) (ofOutcome outcome)

namespace Reached

variable {past : List (Machine σ)}

/-- A machine that runs goes on to be reached, and what holds throughout its run holds of the states
before. -/
theorem advances
    {steps : Nat}
    {property : Machine σ → Prop}
    (reached : Reached host .running past machine)
    (advances : Advances host steps machine after)
    (held : ∀ state ∈ past, property state)
    (always : machine.Throughout host property) :
    ∃ later, Reached host .running later after ∧ ∀ state ∈ later, property state := by
  induction advances generalizing past with
  | start machine => exact ⟨past, reached, held⟩
  | step progress _ inductionHypothesis =>
      refine inductionHypothesis (.step reached progress) ?_ (always.later progress)
      exact List.forall_mem_cons.mpr ⟨always.here, held⟩

/-- A fresh machine has the words of the library, and nothing on its stacks. -/
theorem exists_fresh (host : Host σ) (tracing : Bool) (world : σ) :
    ∃ log,
      Reached host .resting []
        { Library.bare tracing world with dictionary := Library.dictionary, log } := by
  obtain ⟨log, begins⟩ := Library.fresh_eq host tracing world
  exact ⟨log, begins ▸ .fresh tracing world⟩

/-- The machine that the evaluation of a text leaves is reached. -/
theorem evaluate
    {steps : Nat}
    {text : String}
    {outcome : Outcome σ}
    (reached : Reached host .resting past machine)
    (finished : machine.evaluate host steps text = some outcome)
    (property : Machine σ → Prop)
    (held : ∀ state ∈ machine :: past, property state)
    (always : machine.ThroughoutEvaluation host text property) :
    ∃ later, Reached host .resting later (ofOutcome outcome) ∧ ∀ state ∈ later, property state := by
  rcases evaluate_eq_some finished with ⟨error, -, rfl⟩ | ⟨words, parsed, ran⟩
  · exact ⟨past, reached, (List.forall_mem_cons.mp held).2⟩
  · obtain ⟨count, last, advances, ended⟩ := exists_advances_of_run ran
    have throughout := always words parsed
    obtain ⟨later, reachedLast, heldLater⟩ := (reached.read parsed).advances advances held throughout
    refine ⟨last :: later, reachedLast.ended ended, List.forall_mem_cons.mpr ⟨?_, heldLater⟩⟩
    exact throughout count last advances

end Reached

/-! ## Dictionaries -/

/-- The dictionary of the machine and those of its snapshots have a property. -/
structure HasDictionaries (property : Dictionary → Prop) (machine : Machine σ) : Prop where
  /-- The dictionary that is in use. -/
  current : property machine.dictionary
  /-- The dictionaries to which regions would go back. -/
  saved : ∀ snapshot ∈ machine.recovery, property snapshot.dictionary

/-- A machine has the dictionary of another, and snapshots with dictionaries of the other. -/
structure Inherits (before after : Machine σ) : Prop where
  /-- Names mean the same. -/
  dictionary : after.dictionary = before.dictionary
  /-- A snapshot was there before, or has been made of the dictionary in use. -/
  saved : ∀ snapshot ∈ after.recovery,
    snapshot ∈ before.recovery ∨ snapshot.dictionary = before.dictionary

namespace Inherits

theorem of_eq
    (dictionary : after.dictionary = before.dictionary)
    (recovery : after.recovery = before.recovery) :
    before.Inherits after :=
  ⟨dictionary, fun _ present => .inl (recovery ▸ present)⟩

theorem trans
    (earlier : before.Inherits middle)
    (later : middle.Inherits after) :
    before.Inherits after := by
  refine ⟨later.dictionary.trans earlier.dictionary, ?_⟩
  intro snapshot present
  rcases later.saved snapshot present with kept | made
  · exact earlier.saved snapshot kept
  · exact .inr (made.trans earlier.dictionary)

theorem hasDictionaries
    {property : Dictionary → Prop}
    (inherits : before.Inherits after)
    (has : before.HasDictionaries property) :
    after.HasDictionaries property := by
  refine ⟨inherits.dictionary ▸ has.current, ?_⟩
  intro snapshot present
  rcases inherits.saved snapshot present with kept | made
  · exact has.saved snapshot kept
  · exact made ▸ has.current

end Inherits

end Machine

namespace Action

variable {σ : Type} {α : Type} {host : Host σ} {powers : Powers} {machine : Machine σ}

/-- An action leaves dictionaries as they are, and makes snapshots of the one in use only. -/
def KeepsDictionaries (action : Action σ α) : Prop :=
  Relates Machine.Inherits action

theorem KeepsDictionaries.bind
    {β : Type}
    {first : Action σ α}
    {next : α → Action σ β}
    (firstKeeps : KeepsDictionaries first)
    (nextKeeps : ∀ value, KeepsDictionaries (next value)) :
    KeepsDictionaries (first >>= next) :=
  Relates.bind (fun _ _ _ => .trans) firstKeeps nextKeeps

theorem Tentative.keepsDictionaries
    {action : Action σ α}
    (tentative : Tentative powers action) :
    KeepsDictionaries action := by
  intro machine
  have frame := (tentative.allowAll.revocable machine).frame
  refine .of_eq ?_ ?_ <;> rw [frame]

theorem Concluding.keepsDictionaries
    {action : Action σ α}
    (concluding : Concluding host powers action)
    (confined : powers.binds = false) :
    KeepsDictionaries action := by
  induction concluding with
  | pure | interrupt | codeStack | push | putCode | loadCode | echo | prompt =>
      exact fun machine => .of_eq rfl rfl
  | define _ _ allowed =>
      rw [confined] at allowed
      cases allowed
  | halt => exact fun machine => ⟨rfl, fun _ present => absurd present List.not_mem_nil⟩
  | enterRegion handler =>
      refine fun machine => ⟨rfl, fun snapshot present => ?_⟩
      rcases List.mem_cons.mp present with rfl | kept
      · exact .inr rfl
      · exact .inl kept
  | leaveRegion =>
      exact fun machine => ⟨rfl, fun snapshot present => .inl (List.mem_of_mem_drop present)⟩
  | load path => exact fun machine => by rw [load_leaves]; exact .of_eq rfl rfl
  | command name args => exact fun machine => by rw [command_leaves]; exact .of_eq rfl rfl
  | bind _ _ firstKeeps nextKeeps => exact .bind firstKeeps nextKeeps

theorem removeAt_keepsDictionaries (index : Int) :
    KeepsDictionaries (removeAt index : Action σ Word) := by
  intro machine
  have bounded : Bounded {} (removeAt index : Action σ Word) := removeAt_bounded index
  exact .of_eq ((bounded machine).dictionary rfl) ((bounded machine).recovery rfl)

theorem Staged.keepsDictionaries
    {action : Action σ Unit}
    (staged : Staged host powers action)
    (confined : powers.binds = false) :
    KeepsDictionaries action := by
  induction staged with
  | tentative tentative => exact tentative.keepsDictionaries
  | concluding concluding => exact concluding.keepsDictionaries confined
  | move index =>
      exact .bind (removeAt_keepsDictionaries index) fun word machine => .of_eq rfl rfl
  | bind tentative _ inductionHypothesis =>
      exact .bind tentative.keepsDictionaries inductionHypothesis

/-- The name and the word of a definition, taken from the code and from the data. -/
def assignment : Action σ (String × Word) := do
  let name ← ofExcept (← takeCode).asAtom
  let word ← pop
  return (name, word)

theorem assignment_tentative : Tentative .all (assignment : Action σ (String × Word)) :=
  .bind (.takeCode rfl) fun _ => .bind (.ofExcept _) fun _ => .bind .pop fun _ => .pure _

theorem perform_assign (host : Host σ) :
    perform host .assign = assignment >>= fun operands => define operands.1 operands.2 := by
  simp only [perform, assignment, bind_assoc, pure_bind]

theorem exists_code_of_assignment
    {after : Machine σ}
    {operands : String × Word}
    (gathered : assignment machine = .ok operands after) :
    ∃ rest, machine.code = .atom operands.1 :: rest := by
  obtain ⟨taken, _, take, read⟩ := bind_eq_ok gathered
  obtain ⟨_, _, reads, popped⟩ := bind_eq_ok read
  obtain ⟨_, _, _, ⟨⟩⟩ := bind_eq_ok popped
  obtain ⟨rest, code, -⟩ := exists_cons_of_takeCode take
  have atom := Word.eq_atom_of_asAtom (eq_ok_of_ofExcept reads).1
  exact ⟨rest, atom ▸ code⟩

/-- Binding a name either stops before it has changed more than the stacks, or sets that name. -/
theorem assign_leaves (host : Host σ) (machine : Machine σ) :
    machine.Inherits ((perform host .assign).leaves machine) ∨
      ∃ name rest word,
        machine.code = .atom name :: rest ∧
        ((perform host .assign).leaves machine).dictionary =
          machine.dictionary.put name
            (.defined (machine.dictionary.effectOfDefinition word) word) ∧
        ((perform host .assign).leaves machine).recovery = machine.recovery := by
  have frame := (assignment_tentative.revocable machine).frame
  rw [perform_assign]
  cases gathered : assignment machine with
  | error fault failed =>
      rw [leaves_of_error gathered] at frame
      rw [leaves_of_error (bind_of_error gathered), frame]
      exact .inl (.of_eq rfl rfl)
  | ok operands middle =>
      obtain ⟨rest, code⟩ := exists_code_of_assignment gathered
      rw [leaves_of_ok gathered] at frame
      refine .inr ⟨operands.1, rest, operands.2, code, ?_, ?_⟩ <;>
        rw [leaves, bind_of_ok gathered, frame] <;> rfl

end Action

namespace Machine

variable {σ : Type} {host : Host σ} {machine : Machine σ} {property : Dictionary → Prop}

theorem begun_hasDictionaries
    (name : String)
    (rest : List Word)
    (has : machine.HasDictionaries property) :
    (machine.begun name rest).HasDictionaries property := by
  refine ⟨?_, ?_⟩
  · rw [dictionary_begun]
    exact has.current
  · rw [recovery_begun]
    exact has.saved

@[simp] theorem dictionary_abandon (name : String) (error : EvalError) :
    (ofOutcome (machine.abandon name error)).dictionary = machine.dictionary := by
  unfold abandon
  split <;> rfl

/-- The name that the next step sets, if it sets one. -/
def setting? (machine : Machine σ) : Option String :=
  match machine.executing? with
  | some (.assign, .atom name :: _) => some name
  | _ => none

/-- The next step may set a name to a word, and this is the dictionary that then follows. -/
def Defines (machine : Machine σ) (following : Dictionary) : Prop :=
  ∃ name ∈ machine.setting?, ∃ word,
    following =
      machine.dictionary.put name (.defined (machine.dictionary.effectOfDefinition word) word)

/-- Executing a name keeps what definitions keep. -/
theorem execute_hasDictionaries
    (host : Host σ)
    {name : String}
    {rest : List Word}
    (has : machine.HasDictionaries property)
    (next : machine.code = .atom name :: rest)
    (kept : ∀ following, machine.Defines following → property following) :
    ((Action.execute host name).leaves (machine.begun name rest)).HasDictionaries property := by
  have begun := begun_hasDictionaries name rest has
  cases meaning : machine.dictionary.get? name with
  | none =>
      have missing : (machine.begun name rest).dictionary.get? name = none := by
        rw [dictionary_begun, meaning]
      rw [Action.execute, Action.leaves_of_error
        (Action.bind_of_error (Action.lookup_of_none missing))]
      exact begun
  | some binding =>
      cases binding with
      | defined effect word =>
          have calls : Action.Tentative .all (Action.call effect word : Action σ Unit) :=
            .call effect word rfl rfl
          rw [Action.leaves, execute_of_defined meaning]
          exact (calls.keepsDictionaries _).hasDictionaries begun
      | primitive builtin =>
          rw [Action.leaves, execute_of_primitive meaning]
          by_cases assigns : builtin = .assign
          · subst assigns
            rcases Action.assign_leaves host (machine.begun name rest) with
              inherits | ⟨bound, below, word, code, dictionary, recovery⟩
            · exact inherits.hasDictionaries begun
            · rw [code_begun] at code
              rw [dictionary_begun] at dictionary
              have setting : machine.setting? = some bound := by
                simp only [setting?, executing?_of_primitive next meaning, code]
              refine ⟨?_, ?_⟩
              · exact kept _ ⟨bound, setting, word, dictionary⟩
              · intro snapshot present
                exact begun.saved snapshot (recovery ▸ present)
          · have confined : builtin.powers.binds = false := by
              cases builtin <;> first | rfl | exact absurd rfl assigns
            exact ((Action.perform_staged host builtin).keepsDictionaries confined _).hasDictionaries
              begun

/-- A step keeps what definitions keep, also where it goes back to a snapshot. -/
theorem step_hasDictionaries
    (host : Host σ)
    (has : machine.HasDictionaries property)
    (kept : ∀ following, machine.Defines following → property following) :
    (ofProgress (machine.step host)).HasDictionaries property := by
  have takes := step_takes host machine
  generalize machine.step host = progress at takes
  cases takes with
  | finished done => exact ⟨has.current, has.saved⟩
  | shifted word rest literal next => exact ⟨has.current, has.saved⟩
  | executed name rest after next done =>
      have left := execute_hasDictionaries host has next kept
      rwa [Action.leaves_of_ok done] at left
  | recovered name rest error failed snapshot outer next failure regions =>
      rw [recovery_of_failure failure] at regions
      have saved := has.saved
      rw [regions, List.forall_mem_cons] at saved
      refine ⟨?_, ?_⟩
      · rw [ofProgress, dictionary_recover]
        exact saved.1
      · rw [ofProgress, recovery_recover]
        exact saved.2
  | abandoned name rest error failed next failure regions =>
      have left := execute_hasDictionaries host has next kept
      rw [Action.leaves_of_error failure] at left
      refine ⟨?_, ?_⟩
      · rw [ofProgress, dictionary_abandon]
        exact left.current
      · rw [ofProgress, recovery_abandon]
        exact left.saved
  | broken name rest fault failed next failure foreign =>
      have left := execute_hasDictionaries host has next kept
      rwa [Action.leaves_of_error failure] at left

/-- What holds of the library's dictionary, and is kept by the definitions that a machine has made,
holds of its dictionaries. -/
theorem Reached.hasDictionaries
    {phase : Phase}
    {past : List (Machine σ)}
    (reached : Reached host phase past machine)
    (library : property Library.dictionary)
    (kept : ∀ state ∈ past, ∀ following,
      property state.dictionary → state.Defines following → property following) :
    machine.HasDictionaries property := by
  induction reached with
  | fresh tracing world =>
      obtain ⟨log, begins⟩ := Library.fresh_eq host tracing world
      rw [begins]
      exact ⟨library, fun _ present => absurd present List.not_mem_nil⟩
  | read earlier parsed inductionHypothesis =>
      have has := inductionHypothesis (List.forall_mem_cons.mp kept).2
      exact ⟨has.current, has.saved⟩
  | step earlier progress inductionHypothesis | ended earlier progress inductionHypothesis =>
      rw [List.forall_mem_cons] at kept
      have has := inductionHypothesis kept.2
      have follows := step_hasDictionaries host has fun following => kept.1 following has.current
      rwa [progress] at follows

end Machine
end Concatenative
