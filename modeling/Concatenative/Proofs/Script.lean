import Concatenative.Proofs.FileTree
import Concatenative.Proofs.Interaction
import Concatenative.Proofs.Machine.Faults

/-!
# Scripts

A script is run by the word `interpret` of the library, which asks the host for the text at a path,
reads the text and executes its words. That is to evaluate the text, but for the call to the host
and for what becomes of a text that is no program: the word that reads it fails, and it fails before
any of the text is run.
-/

namespace Concatenative

/-- The fault is a failure of the program or of its host. -/
def Fault.isFailure : Fault → Bool
  | .eval _ => true
  | .host _ => true
  | _ => false

/-- The fault is a failure, or there was no program to run. -/
def Fault.isReported : Fault → Bool
  | .flawed _ => true
  | fault => fault.isFailure

namespace Script

open Machine

/-- The words with which a script is run. -/
def words : List String := ["interpret", "load", "parse", "eval"]

variable {σ : Type} {host : Host σ} {machine : Machine σ} {path text : String} {world : σ}

/-- The fault with which a run ended, if it did not come to its end. -/
def faultOf? : Outcome σ → Option Fault
  | .ok () _ => none
  | .error fault _ => some fault

theorem map_faultOf?_eq
    {earlier : List Event}
    {outcome result : Option (Outcome σ)}
    (like : Option.Rel (EndsLike earlier) outcome result) :
    result.map faultOf? = outcome.map faultOf? := by
  cases like with
  | none => rfl
  | some like => cases like <;> rfl

/-- The way in which the program ends with the run of a script, if it does: it reports a failure,
and any other fault escapes. -/
def ending? (fault? : Option Fault) : Option Session.Ending :=
  fault?.map fun fault => if fault.isFailure then .exit 1 else .fault fault

theorem conclude_eq_ending? (path : String) (outcome : Outcome σ) :
    (Session.conclude (Session.scriptLaunch path) outcome).2 = ending? (faultOf? outcome) := by
  cases outcome with
  | ok => rfl
  | error fault => cases fault <;> rfl

/-! ## The run of a script -/

/-- The dictionary gives the words with which a script is run the meanings that they have in the
library. -/
def Supports (dictionary : Dictionary) : Prop :=
  ∀ name ∈ words, dictionary.get? name = Library.dictionary.get? name

theorem Supports.primitive
    {dictionary : Dictionary}
    (supports : Supports dictionary)
    (builtin : Builtin)
    (used : builtin.name ∈ words) :
    dictionary.get? builtin.name = some (.primitive builtin) :=
  Library.Provides.primitive supports builtin used

variable {desk : Desk σ} {log : List Event} {program : List Word}

/-- The machine that is about to ask for the text at a path. -/
def asking (path : String) (log : List Event) (desk : Desk σ) : Machine σ :=
  Desk.machine [.atom "load", .atom "parse", .atom "eval"] [] log
    { desk with data := .str path :: desk.data }

/-- The machine that has been given a text. -/
def given (text : String) (log : List Event) (desk : Desk σ) : Machine σ :=
  Desk.machine [.atom "parse", .atom "eval"] [] log { desk with data := .str text :: desk.data }

theorem leads_asking (supports : Supports desk.dictionary) :
    Leads host (desk.machine [.str path, .atom "interpret"] [] log) (asking path log desk) :=
  (leads_literal (by simp)).trans
    (leads_call ((supports "interpret" (by decide)).trans rfl) rfl)

theorem leads_given
    (supports : Supports desk.dictionary)
    (answer : host.load path desk.world = (.ok text, world)) :
    Leads host (desk.machine [.str path, .atom "interpret"] [] log)
      (given text (.load path :: log) { desk with world }) :=
  (leads_asking supports).trans
    (leads_primitive (supports.primitive .load (by decide))
      ((Action.perform_load rfl answer).trans rfl))

theorem leads_evaluated
    (supports : Supports desk.dictionary)
    (answer : host.load path desk.world = (.ok text, world))
    (parsed : Source.parse text = .ok program) :
    Leads host (desk.machine [.str path, .atom "interpret"] [] log)
      (Desk.machine program.reverse [] (.load path :: log) { desk with world }) := by
  refine (leads_given supports answer).trans ?_
  refine (leads_parse (supports.primitive .parse (by decide)) parsed).trans ?_
  rw [← List.append_nil program.reverse]
  exact leads_eval (supports.primitive .eval (by decide))

theorem exists_failure_of_unread
    {error : Source.ReadError}
    (desk : Desk σ)
    (supports : Supports desk.dictionary)
    (log : List Event)
    (flaw : Source.parse text = .error error) :
    ∃ failed,
      Action.execute host "parse" ((given text log desk).begun "parse" [.atom "eval"]) =
        .error (Action.parsingFault error) failed :=
  ⟨_, (execute_of_primitive (supports.primitive .parse (by decide))).trans
    (Action.perform_parse_of_error rfl flaw)⟩

/-- The fault with which a script ends that the host does not give. -/
def refusal (path : String) : HostError → Fault
  | .unavailable cause => .host ("cannot load " ++ path ++ ": " ++ cause)
  | .nullCharacter => .nullCharacter

theorem exists_failure_of_refused
    {error : HostError}
    (desk : Desk σ)
    (supports : Supports desk.dictionary)
    (log : List Event)
    (answer : host.load path desk.world = (.error error, world)) :
    ∃ failed,
      Action.execute host "load"
          ((asking path log desk).begun "load" [.atom "parse", .atom "eval"]) =
        .error (refusal path error) failed := by
  cases error <;>
    exact ⟨_, (execute_of_primitive (supports.primitive .load (by decide))).trans
      ((Action.perform_load rfl answer).trans rfl)⟩

/-- The machine has nothing to do, and a dictionary with which scripts can be run. -/
structure Ready (machine : Machine σ) : Prop where
  /-- The words with which a script is run have their meanings. -/
  supports : Supports machine.dictionary
  /-- There is no code. -/
  idle : machine.code = []
  /-- No protected region is open. -/
  unprotected : machine.recovery = []

/-- A machine that is given a script looks like a desk with nothing else to do. -/
theorem Ready.mirrors_launch (ready : Ready machine) (path : String) :
    (machine.desk.machine [.str path, .atom "interpret"] [] machine.log).Mirrors []
      (machine.mapStacks (Stacks.load (Session.scriptLaunch path).words)) where
  data := rfl
  code := by
    change [Word.str path, .atom "interpret"] ++ machine.code = _
    rw [ready.idle]
    rfl
  dictionary := rfl
  recovery := ready.unprotected
  world := rfl
  calls := (List.append_nil _).symm

/-- A script that is a program is evaluated, step for step, once its text is there. -/
theorem runs_program
    (ready : Ready machine)
    (answer : host.load path machine.world = (.ok text, world))
    (parsed : Source.parse text = .ok program) :
    ∃ lead, ∀ steps,
      Option.Rel (EndsLike (.load path :: machine.calls))
        ({ machine with world, log := [] }.evaluate host steps text)
        (machine.runWords host (lead + steps) (Session.scriptLaunch path).words) := by
  let evaluated : Machine σ :=
    { machine with code := program.reverse ++ machine.code, world, log := [] }
  have begun : evaluated.Mirrors (.load path :: machine.calls)
      (Desk.machine program.reverse [] (.load path :: machine.log)
        { machine.desk with world }) := by
    refine ⟨rfl, ?_, rfl, ready.unprotected.symm, rfl, rfl⟩
    change program.reverse = program.reverse ++ machine.code
    rw [ready.idle, List.append_nil]
  obtain ⟨lead, agrees⟩ := Leads.exists_run
    (leads_evaluated ready.supports answer parsed) (ready.mirrors_launch path) begun
  refine ⟨lead, fun steps => ?_⟩
  rw [evaluate_of_parse host steps parsed]
  exact agrees steps

/-- A script that is no program makes the word fail that reads it. -/
theorem runs_flawed
    {error : Source.SyntaxError}
    (ready : Ready machine)
    (answer : host.load path machine.world = (.ok text, world))
    (flaw : Source.parse text = .error (.flawed error)) :
    ∃ lead final,
      (∀ steps, machine.runWords host (lead + steps) (Session.scriptLaunch path).words =
        some (.error (.eval (.badParse error)) final)) ∧
      Mirrors []
        { machine with
          data := .str text :: machine.data
          code := [.atom "parse", .atom "eval"]
          world
          log := .load path :: machine.log }
        final := by
  obtain ⟨failed, failure⟩ := exists_failure_of_unread { machine.desk with world } ready.supports
    (.load path :: machine.log) flaw
  obtain ⟨lead, result, runs, like⟩ := Leads.exists_ended
    (leads_given ready.supports answer) (ready.mirrors_launch path) (step_withdraws rfl rfl failure)
  cases like with
  | error mirrors =>
      refine ⟨lead, _, runs, ?_⟩
      exact ⟨mirrors.data, mirrors.code, mirrors.dictionary,
        mirrors.recovery.trans ready.unprotected.symm, mirrors.world, mirrors.calls⟩

/-- Whatever keeps a script from being read ends its run. -/
theorem runs_unread
    {error : Source.ReadError}
    (ready : Ready machine)
    (answer : host.load path machine.world = (.ok text, world))
    (flaw : Source.parse text = .error error) :
    ∃ lead final, ∀ steps,
      machine.runWords host (lead + steps) (Session.scriptLaunch path).words =
        some (.error (Action.parsingFault error) final) := by
  obtain ⟨failed, failure⟩ := exists_failure_of_unread { machine.desk with world } ready.supports
    (.load path :: machine.log) flaw
  exact Leads.exists_failed (leads_given ready.supports answer) (ready.mirrors_launch path)
    rfl rfl failure

/-- A script that cannot be had ends its run with the cause. -/
theorem runs_refused
    {error : HostError}
    (ready : Ready machine)
    (answer : host.load path machine.world = (.error error, world)) :
    ∃ lead final, ∀ steps,
      machine.runWords host (lead + steps) (Session.scriptLaunch path).words =
        some (.error (refusal path error) final) := by
  obtain ⟨failed, failure⟩ := exists_failure_of_refused machine.desk ready.supports
    machine.log answer
  exact Leads.exists_failed (leads_asking ready.supports) (ready.mirrors_launch path)
    rfl rfl failure

/-- The run of the script at a path is the evaluation of its text, on the machine as it is once the
host has given the text. -/
structure RunsAsEvaluated
    (host : Host σ)
    (machine : Machine σ)
    (path text : String)
    (world : σ) :
    Prop where
  /-- A program is evaluated step for step. The call for the text comes before the calls of the
  evaluation. The run is reported to have failed if the evaluation fails. -/
  program : ∀ program, Source.parse text = .ok program →
    ∃ lead, ∀ steps,
      let evaluated := { machine with world, log := [] }.evaluate host steps text
      let run := machine.runWords host (lead + steps) (Session.scriptLaunch path).words
      Option.Rel (EndsLike (.load path :: machine.calls)) evaluated run ∧
        run.map (fun outcome => (Session.conclude (Session.scriptLaunch path) outcome).2) =
          evaluated.map fun outcome => ending? (faultOf? outcome)
  /-- A text that is no program is left on the data stack, and the words that were to read it and
  to execute it are left in the code. The run is reported to have failed. -/
  flawed : ∀ error, Source.parse text = .error (.flawed error) →
    ∃ lead outcome,
      (∀ steps, machine.runWords host (lead + steps) (Session.scriptLaunch path).words =
        some outcome) ∧
      EndsLike []
        (.error (.eval (.badParse error))
          { machine with
            data := .str text :: machine.data
            code := [.atom "parse", .atom "eval"]
            world
            log := .load path :: machine.log })
        outcome ∧
      (Session.conclude (Session.scriptLaunch path) outcome).2 = some (.exit 1)

theorem Ready.runsAsEvaluated
    (ready : Ready machine)
    (answer : host.load path machine.world = (.ok text, world)) :
    RunsAsEvaluated host machine path text world where
  program program parsed := by
    obtain ⟨lead, agrees⟩ := runs_program ready answer parsed
    refine ⟨lead, fun steps => ⟨agrees steps, ?_⟩⟩
    have faults := congrArg (Option.map ending?) (map_faultOf?_eq (agrees steps))
    simpa only [Option.map_map, Function.comp_def, conclude_eq_ending?] using faults
  flawed error flaw := by
    obtain ⟨lead, final, runs, mirrors⟩ := runs_flawed ready answer flaw
    exact ⟨lead, _, runs, .error mirrors, rfl⟩

/-! ## The program -/

section Program

variable {contents : String → Except OpenError (List UInt8)} {start : σ}

/-- The path is that of a script that is there, and does not look like an option. -/
structure Present (path : String) (contents : String → Except OpenError (List UInt8)) : Prop where
  /-- The path is not empty. -/
  nonempty : path ≠ ""
  /-- The path does not begin like an option. -/
  plain : path.toList.head? ≠ some '-'
  /-- Something stands at the path. -/
  found : Session.presence (contents (Path.normal path)) = .ok true

/-- An argument that does not look like an option is a script to run. -/
theorem read_script
    (nonempty : path ≠ "")
    (plain : path.toList.head? ≠ some '-') :
    CommandLine.read [path] = .run { script := some path } := by
  have noDashes : path ≠ "--" := by
    rintro rfl
    exact plain rfl
  have positional : CommandLine.classify path.toList = .ok (.positional path) := by
    unfold CommandLine.classify
    split
    · next begins => simp [begins] at plain
    · rw [String.ofList_toList]
  have items : CommandLine.classifyAll [path] = .ok [.positional path] := by
    rw [CommandLine.classifyAll, if_neg noDashes, positional]
    rfl
  have kept : (some path).filter (fun path => path ≠ "") = some path := by simp [nonempty]
  have reading : CommandLine.Reading.withItems {} [.positional path] =
      .ok (CommandLine.Reading.withScript (some path) {}) := rfl
  simp only [CommandLine.read, items, reading]
  change CommandLine.Request.run { script := (some path).filter fun path => path ≠ "" } = _
  rw [kept]

/-- The machine on which the program runs a script. -/
def launched (host : Host σ) (start : σ) : Machine σ :=
  { Library.fresh host false start with log := [] }

theorem launched_eq (host : Host σ) (start : σ) :
    launched host start = { Library.bare false start with dictionary := Library.dictionary } := by
  obtain ⟨log, begins⟩ := Library.fresh_eq host false start
  rw [launched, begins]
  rfl

theorem launched_ready (host : Host σ) (start : σ) : Ready (launched host start) := by
  rw [launched_eq]
  exact ⟨fun _ _ => rfl, rfl, rfl⟩

/-- The program ends as the run of its script does. -/
theorem call_script
    (present : Present path contents)
    (host : Host σ)
    (lineEditing : Bool)
    (start : σ)
    (steps : Nat) :
    (Session.callOn host contents steps lineEditing [path] start).map
        (fun answer => answer.1.ending) =
      ((launched host start).runWords host steps (Session.scriptLaunch path).words).map
        fun outcome => (ending? (faultOf? outcome)).getD (.exit 0) := by
  have planned : Session.plan contents lineEditing (CommandLine.read [path]) =
      .launch false [Session.scriptLaunch path] := by
    rw [read_script present.nonempty present.plain]
    simp only [Session.plan, present.found]
    rfl
  simp only [Session.callOn, planned, Session.carryOut, conclude_eq_ending?]
  -- The run of the machine is the only step that may have no result.
  change Option.map _ (Option.bind (Option.bind
    ((launched host start).runWords host steps (Session.scriptLaunch path).words) _) _) = _
  cases (launched host start).runWords host steps (Session.scriptLaunch path).words with
  | none => rfl
  | some outcome => cases ending : ending? (faultOf? outcome) <;> simp [ending]

/-- The program ends in some way when it is called with arguments. -/
def Ends
    (host : Host σ)
    (contents : String → Except OpenError (List UInt8))
    (lineEditing : Bool)
    (arguments : List String)
    (start : σ)
    (ending : Session.Ending) :
    Prop :=
  ∃ steps report left,
    Session.callOn host contents steps lineEditing arguments start = some (report, left) ∧
      report.ending = ending

/-- A text that is evaluated on a fresh machine comes to its end, or to a fault. -/
def Evaluates (host : Host σ) (world : σ) (text : String) (fault? : Option Fault) : Prop :=
  ∃ steps outcome,
    (Library.fresh host false world).evaluate host steps text = some outcome ∧
      faultOf? outcome = fault?

/-- The run of the script at a path comes to its end, or to a fault. -/
def Runs (host : Host σ) (start : σ) (path : String) (fault? : Option Fault) : Prop :=
  ∃ steps outcome,
    (launched host start).runWords host steps (Session.scriptLaunch path).words = some outcome ∧
      faultOf? outcome = fault?

variable {lineEditing : Bool} {ending : Session.Ending} {fault? : Option Fault}

theorem ends_iff_runs (present : Present path contents) :
    Ends host contents lineEditing [path] start ending ↔
      ∃ fault?, Runs host start path fault? ∧ (ending? fault?).getD (.exit 0) = ending := by
  have called := call_script present host lineEditing start
  constructor
  · rintro ⟨steps, report, left, answer, rfl⟩
    have same := called steps
    rw [answer] at same
    obtain ⟨outcome, finished, ends⟩ := Option.map_eq_some_iff.mp same.symm
    exact ⟨_, ⟨steps, outcome, finished, rfl⟩, ends⟩
  · rintro ⟨_, ⟨steps, outcome, finished, rfl⟩, rfl⟩
    have same := called steps
    rw [finished] at same
    obtain ⟨⟨report, left⟩, answer, ends⟩ := Option.map_eq_some_iff.mp same
    exact ⟨steps, report, left, answer, ends⟩

/-- A run that always has one fault after some steps has no other end. -/
theorem runs_iff_of_fault
    {lead : Nat}
    {fault : Fault}
    {final : Machine σ}
    (runs : ∀ steps, (launched host start).runWords host (lead + steps)
      (Session.scriptLaunch path).words = some (.error fault final)) :
    Runs host start path fault? ↔ fault? = some fault := by
  constructor
  · rintro ⟨steps, outcome, finished, rfl⟩
    rw [run_unique finished (runs 0)]
    rfl
  · rintro rfl
    exact ⟨lead, _, runs 0, rfl⟩

theorem load_launched
    {answer : Except HostError String}
    (loaded : (host.load path start).1 = answer) :
    host.load path (launched host start).world = (answer, (host.load path start).2) := by
  rw [launched_eq, ← loaded]
  rfl

/-- The run of a script that is a program ends as its text does when it is evaluated. -/
theorem runs_iff_of_program
    (loaded : (host.load path start).1 = .ok text)
    (parsed : Source.parse text = .ok program) :
    Runs host start path fault? ↔ Evaluates host (host.load path start).2 text fault? := by
  obtain ⟨lead, agrees⟩ := runs_program (launched_ready host start) (load_launched loaded) parsed
  generalize (host.load path start).2 = after at agrees ⊢
  -- The machine that is launched becomes a fresh one, but for its log, when the text is there.
  have fresh : { launched host start with world := after, log := [] }.Mirrors
      (Library.fresh host false after).calls (Library.fresh host false after) := by
    obtain ⟨log, library⟩ := Library.fresh_eq host false after
    rw [launched_eq, library]
    exact ⟨rfl, rfl, rfl, rfl, rfl, rfl⟩
  have same : ∀ steps,
      ((launched host start).runWords host (lead + steps)
        (Session.scriptLaunch path).words).map faultOf? =
      ((Library.fresh host false after).evaluate host steps text).map faultOf? := fun steps =>
    (map_faultOf?_eq (agrees steps)).trans (map_faultOf?_eq (fresh.evaluate host steps text)).symm
  constructor
  · rintro ⟨steps, outcome, finished, rfl⟩
    have later := same steps
    rw [Nat.add_comm, runWords, run_add finished lead] at later
    obtain ⟨evaluated, ends, faults⟩ := Option.map_eq_some_iff.mp later.symm
    exact ⟨steps, evaluated, ends, faults⟩
  · rintro ⟨steps, evaluated, ends, rfl⟩
    have earlier := same steps
    rw [ends] at earlier
    obtain ⟨outcome, finished, faults⟩ := Option.map_eq_some_iff.mp earlier
    exact ⟨lead + steps, outcome, finished, faults⟩

/-- A text that cannot be read has one end. -/
theorem evaluates_iff_of_error
    {error : Source.ReadError}
    (flaw : Source.parse text = .error error) :
    Evaluates host world text fault? ↔ fault? = some (.ofReadError error) := by
  simp only [Evaluates, evaluate, flaw, Option.some.injEq, exists_const, exists_eq_left', faultOf?]
  exact eq_comm

variable {quiet : σ → Prop}

/-- A program that no user interrupts has internal faults only. -/
theorem isInternal_of_evaluates
    {fault : Fault}
    (undisturbed : host.Undisturbed quiet)
    (calm : quiet world)
    (parsed : Source.parse text = .ok program)
    (evaluates : Evaluates host world text (some fault)) :
    fault.isInternal = true := by
  obtain ⟨steps, outcome, finished, faults⟩ := evaluates
  rw [evaluate_of_parse host steps parsed] at finished
  cases outcome with
  | ok => cases faults
  | error other failed =>
      cases faults
      refine isInternal_of_run undisturbed ?_ finished
      obtain ⟨log, begins⟩ := Library.fresh_eq host false world
      rw [begins]
      exact calm

/-- The way in which the program ends if the text of its script comes to its end or to a fault when
it is evaluated. -/
def endingOf (fault? : Option Fault) : Session.Ending :=
  fault?.elim (.exit 0) fun fault => if fault.isReported then .exit 1 else .fault fault

theorem ending?_getD_eq_endingOf
    (internal : ∀ fault ∈ fault?, fault.isInternal = true) :
    (ending? fault?).getD (.exit 0) = endingOf fault? := by
  cases fault? with
  | none => rfl
  | some fault =>
      cases fault with
      | flawed | interrupted => cases internal _ rfl
      | eval | oversized | host | nullCharacter | badIndex | undo => rfl

/-- The program ends as the text of its script does when it is evaluated. -/
theorem ends_iff_evaluates
    (present : Present path contents)
    (undisturbed : host.Undisturbed quiet)
    (calm : quiet start)
    (loaded : (host.load path start).1 = .ok text) :
    Ends host contents lineEditing [path] start ending ↔
      ∃ fault?, Evaluates host (host.load path start).2 text fault? ∧ endingOf fault? = ending := by
  rw [ends_iff_runs present]
  cases parsed : Source.parse text with
  | ok program =>
      refine exists_congr fun fault? => ?_
      rw [runs_iff_of_program loaded parsed]
      refine and_congr_right fun evaluates => ?_
      -- A flaw that came from a run would escape, and one that came from reading is reported.
      rw [ending?_getD_eq_endingOf]
      rintro fault rfl
      exact isInternal_of_evaluates undisturbed (undisturbed.load path start calm) parsed evaluates
  | error error =>
      obtain ⟨lead, final, runs⟩ :=
        runs_unread (launched_ready host start) (load_launched loaded) parsed
      simp only [evaluates_iff_of_error parsed, runs_iff_of_fault runs, exists_eq_left]
      cases error <;> rfl

/-- If the host does not give the script, the program ends with that. -/
theorem ends_iff_of_refused
    {error : HostError}
    (present : Present path contents)
    (refused : (host.load path start).1 = .error error) :
    Ends host contents lineEditing [path] start ending ↔
      (ending? (some (refusal path error))).getD (.exit 0) = ending := by
  obtain ⟨lead, final, runs⟩ := runs_refused (launched_ready host start) (load_launched refused)
  simp only [ends_iff_runs present, runs_iff_of_fault runs, exists_eq_left]

theorem endingOf_eq_exit_one_iff :
    endingOf fault? = .exit 1 ↔ ∃ fault, fault? = some fault ∧ fault.isReported = true := by
  cases fault? with
  | none => simp [endingOf]
  | some fault => cases reported : fault.isReported <;> simp [endingOf, reported]

theorem endingOf_eq_exit_zero_iff : endingOf fault? = .exit 0 ↔ fault? = none := by
  cases fault? with
  | none => simp [endingOf]
  | some fault => cases reported : fault.isReported <;> simp [endingOf, reported]

/-- The program, called with a script, ends as the text of the script does when it is evaluated, in
the state in which the host is once it has given the text. -/
structure EndsAsEvaluated
    (host : Host σ)
    (contents : String → Except OpenError (List UInt8))
    (lineEditing : Bool)
    (path : String)
    (start : σ) :
    Prop where
  /-- It fails if the script cannot be had, or if evaluating its text fails. -/
  failing :
    Ends host contents lineEditing [path] start (.exit 1) ↔
      (∃ error, (host.load path start).1 = .error error) ∨
      ∃ text fault,
        (host.load path start).1 = .ok text ∧
        Evaluates host (host.load path start).2 text (some fault) ∧
        fault.isReported = true
  /-- It succeeds if evaluating the text comes to its end. -/
  passing :
    Ends host contents lineEditing [path] start (.exit 0) ↔
      ∃ text,
        (host.load path start).1 = .ok text ∧ Evaluates host (host.load path start).2 text none
  /-- Otherwise evaluating the text has a fault of another kind, which escapes. -/
  escaping : ∀ ending, Ends host contents lineEditing [path] start ending →
    ending = .exit 1 ∨
    ending = .exit 0 ∨
    ∃ text fault,
      ending = .fault fault ∧
      fault ≠ .interrupted ∧
      fault.isReported = false ∧
      (host.load path start).1 = .ok text ∧
      Evaluates host (host.load path start).2 text (some fault)

/-- A text that is evaluated without an interrupt is not interrupted. -/
theorem ne_interrupted_of_evaluates
    {fault : Fault}
    (undisturbed : host.Undisturbed quiet)
    (calm : quiet world)
    (evaluates : Evaluates host world text (some fault)) :
    fault ≠ .interrupted := by
  rintro rfl
  cases parsed : Source.parse text with
  | ok program => cases isInternal_of_evaluates undisturbed calm parsed evaluates
  | error error =>
      have same := (evaluates_iff_of_error parsed).mp evaluates
      cases error <;> cases same

theorem endsAsEvaluated
    (present : Present path contents)
    (undisturbed : host.Undisturbed quiet)
    (calm : quiet start)
    (named : (host.load path start).1 ≠ .error .nullCharacter) :
    EndsAsEvaluated host contents lineEditing path start := by
  cases loaded : (host.load path start).1 with
  | error error =>
      have ends : ∀ ending,
          Ends host contents lineEditing [path] start ending ↔ .exit 1 = ending := by
        intro ending
        rw [ends_iff_of_refused present loaded]
        cases error with
        | unavailable cause => rfl
        | nullCharacter => exact absurd loaded named
      refine ⟨?_, ?_, ?_⟩
      · simp [ends, loaded]
      · simp [ends, loaded]
      · exact fun ending ended => .inl ((ends ending).mp ended).symm
  | ok text =>
      have ends : ∀ ending, Ends host contents lineEditing [path] start ending ↔
          ∃ fault?, Evaluates host (host.load path start).2 text fault? ∧
            endingOf fault? = ending := fun ending =>
        ends_iff_evaluates present undisturbed calm loaded
      refine ⟨?_, ?_, ?_⟩
      · simp only [ends, loaded, endingOf_eq_exit_one_iff, reduceCtorEq, exists_false, false_or,
          Except.ok.injEq]
        constructor
        · rintro ⟨_, evaluates, fault, rfl, reported⟩
          exact ⟨text, fault, rfl, evaluates, reported⟩
        · rintro ⟨_, fault, rfl, evaluates, reported⟩
          exact ⟨some fault, evaluates, fault, rfl, reported⟩
      · simp [ends, loaded, endingOf_eq_exit_zero_iff]
      · intro ending ended
        obtain ⟨fault?, evaluates, rfl⟩ := (ends ending).mp ended
        cases fault? with
        | none => exact .inr (.inl rfl)
        | some fault =>
            cases reported : fault.isReported with
            | true => exact .inl (if_pos reported)
            | false =>
                have escapes : endingOf (some fault) = .fault fault := if_neg (by simp [reported])
                have calmAfter := undisturbed.load path start calm
                exact .inr (.inr ⟨text, fault, escapes,
                  ne_interrupted_of_evaluates undisturbed calmAfter evaluates, reported, loaded,
                  evaluates⟩)

end Program

/-- To run a script is to evaluate its text, whatever the host and the machine that has nothing else
to do. So the program, called with a script that is there and not interrupted, ends as the text does
when it is evaluated on a fresh machine. A host that will not have the path of the script because of
a null character in it makes the program end with that; a console does not, since at such a path
nothing is there. -/
theorem script_is_evaluated :
    (∀ (σ : Type) (host : Host σ) (machine : Machine σ) (path text : String) (world : σ)
        (tracing : Bool) (start : σ),
      (∀ name ∈ words, machine.dictionary.get? name =
        (Library.fresh host tracing start).dictionary.get? name) →
      machine.code = [] →
      machine.recovery = [] →
      host.load path machine.world = (.ok text, world) →
      RunsAsEvaluated host machine path text world) ∧
    (∀ (σ : Type) (host : Host σ) (contents : String → Except OpenError (List UInt8))
        (quiet : σ → Prop) (lineEditing : Bool) (path : String) (start : σ),
      path ≠ "" →
      path.toList.head? ≠ some '-' →
      Session.presence (contents (Path.normal path)) = .ok true →
      host.Undisturbed quiet →
      quiet start →
      ((host.load path start).1 ≠ .error .nullCharacter →
        EndsAsEvaluated host contents lineEditing path start) ∧
      ((host.load path start).1 = .error .nullCharacter →
        ∀ ending, Ends host contents lineEditing [path] start ending ↔
          ending = .fault .nullCharacter)) ∧
    ∀ (lineEditing : Bool) (path : String) (console : Console),
      path ≠ "" →
      path.toList.head? ≠ some '-' →
      Session.presence (console.files.contents (Path.normal path)) = .ok true →
      none ∉ console.typed →
      EndsAsEvaluated Console.host console.files.contents lineEditing path console := by
  refine ⟨?_, ?_, ?_⟩
  · intro σ host machine path text world tracing start initial idle unprotected answer
    rw [Library.dictionary_fresh] at initial
    exact Ready.runsAsEvaluated ⟨initial, idle, unprotected⟩ answer
  · intro σ host contents quiet lineEditing path start nonempty plain found undisturbed calm
    have present : Present path contents := ⟨nonempty, plain, found⟩
    refine ⟨endsAsEvaluated present undisturbed calm, fun refused ending => ?_⟩
    rw [ends_iff_of_refused present refused]
    exact eq_comm
  · intro lineEditing path console nonempty plain found quiet
    have named : (Console.host.load path console).1 ≠ .error .nullCharacter := by
      intro refused
      obtain ⟨cause, other⟩ := Console.load_present found refused
      cases other
    exact endsAsEvaluated ⟨nonempty, plain, found⟩ Console.undisturbed quiet named

/-- A script that doubles the top of the data stack does so on a machine with a number, and makes
the program fail, which runs it on an empty stack. The program succeeds if the script brings the
number, whatever the host is, and ends abruptly on a host that will not have the path. -/
theorem script_is_evaluated_doubling :
    let console : Console := { files := [("double", .file [100, 117, 112])] }
    let machine : Machine Console :=
      { Library.bare false console with data := [.int 7], dictionary := Library.dictionary }
    let contents : String → Except OpenError (List UInt8) := fun _ => .ok []
    (∃ steps final,
      machine.runWords Console.host steps (Session.scriptLaunch "double").words =
        some (.ok () final) ∧
      final.data = [.int 7, .int 7] ∧
      final.calls = [.load "double"]) ∧
    Ends Console.host console.files.contents false ["double"] console (.exit 1) ∧
    Ends Answer.host contents false ["double"] { content := .ok "dup 7" } (.exit 0) ∧
    Ends Answer.host contents false ["double"] { content := .error .nullCharacter }
      (.fault .nullCharacter) := by
  intro console machine contents
  obtain ⟨runs, ends, endsOnConsole⟩ := script_is_evaluated
  have loaded : Console.host.load "double" console = (.ok "dup", console) := rfl
  have parsed : Source.parse "dup" = .ok [.atom "dup"] := Source.parse_of_readTokens rfl
  refine ⟨?_, ?_, ?_, ?_⟩
  · have initial : ∀ name ∈ words, machine.dictionary.get? name =
        (Library.fresh Console.host false console).dictionary.get? name := by
      rw [Library.dictionary_fresh]
      exact fun name _ => rfl
    obtain ⟨lead, agrees⟩ :=
      (runs Console Console.host machine "double" "dup" console false console initial rfl rfl
        loaded).program _ parsed
    have evaluated : { machine with world := console, log := [] }.evaluate Console.host 4 "dup" =
        some (.ok () _) :=
      (evaluate_of_parse Console.host 4 parsed _).trans rfl
    have like := (agrees 4).1
    rw [evaluated] at like
    obtain ⟨final, finished, mirrors⟩ := exists_ok_of_rel like
    exact ⟨lead + 4, final, finished, mirrors.data, mirrors.calls⟩
  · have found : Session.presence (console.files.contents (Path.normal "double")) = .ok true := rfl
    refine (endsOnConsole false "double" console (by decide) (by decide) found
      (by decide)).failing.mpr ?_
    obtain ⟨log, begins⟩ := Library.fresh_eq Console.host false console
    have fails : (Library.fresh Console.host false console).evaluate Console.host 1 "dup" =
        some (.error (.eval .stackUnderflow)
          { Library.bare false console with
            code := [.atom "dup"], dictionary := Library.dictionary, log }) := by
      rw [begins, evaluate_of_parse Console.host 1 parsed]
      rfl
    exact .inr ⟨"dup", .eval .stackUnderflow, rfl, ⟨1, _, fails, rfl⟩, rfl⟩
  · let start : Answer := { content := .ok "dup 7" }
    have answered := (ends Answer Answer.host contents _ false "double" start (by decide)
      (by decide) rfl Answer.undisturbed (by decide)).1 (by rintro ⟨⟩)
    refine answered.passing.mpr ⟨"dup 7", rfl, ?_⟩
    have doubled : Source.parse "dup 7" = .ok [.atom "dup", .int 7] :=
      Source.parse_of_readTokens rfl
    obtain ⟨log, begins⟩ := Library.fresh_eq Answer.host false start
    obtain ⟨final, finished⟩ : ∃ final,
        (Library.fresh Answer.host false start).evaluate Answer.host 5 "dup 7" =
          some (.ok () final) := by
      rw [begins, evaluate_of_parse Answer.host 5 doubled]
      exact ⟨_, rfl⟩
    exact ⟨5, _, finished, rfl⟩
  · have refused := (ends Answer Answer.host contents _ false "double"
      { content := .error .nullCharacter } (by decide) (by decide) rfl Answer.undisturbed
      (by decide)).2
    exact (refused rfl _).mpr rfl

end Script
end Concatenative
