import Concatenative.Console
import Concatenative.Proofs.Library
import Concatenative.Proofs.Machine.Frame
import Concatenative.Proofs.Repetition

/-!
# Interaction

The word `repl` asks for lines and runs them. It is a program of the library: a loop around a
protected region, which puts itself back on the code stack on every turn.
-/

namespace Concatenative

/-- A machine at the desk that is left alone, with nothing to execute. -/
def Desk.alone {σ : Type} (tracing : Bool) (desk : Desk σ) : Machine σ :=
  { desk.machine [] [] [] with tracing }

namespace Interaction

open Machine

variable {σ : Type}

/-! ## Sessions -/

/-- The words that the loop executes itself. -/
def words : List String :=
  ["loop", "eval", "expand", "try", "parse", "prompt", "echo", "popeh"]

/-- What becomes of a line: the calls that it makes, latest first, and what then lies on the desk. -/
inductive Transaction (host : Host σ) (line : String) (before : Desk σ) :
    List Event → Desk σ → Prop where
  /-- A line that can be evaluated alone makes the same calls and leaves the same on the desk. -/
  | kept {tracing : Bool} {steps : Nat} {after : Machine σ}
      (finished : (before.alone tracing).evaluate host steps line = some (.ok () after))
      (closed : after.recovery = [])
      (confined : (before.alone tracing).ThroughoutEvaluation host line (Confined host))
      (unchanged : ∀ name ∈ words, after.dictionary.get? name = before.dictionary.get? name) :
      Transaction host line before after.calls after.desk
  /-- A line that cannot be read is reported. -/
  | misread {error : Source.SyntaxError}
      (flaw : Source.parse line = .error (.flawed error)) :
      Transaction host line before
        [.echo ("parse error: " ++ error.message)]
        { before with world := host.echo ("parse error: " ++ error.message) before.world }
  /-- A line that fails alone makes the same calls. Then the atom that fails is reported, and the
  data and the meanings of names are as they were. -/
  | undone {tracing : Bool} {steps : Nat} {error : EvalError} {failed : Machine σ}
      {name : String} {rest : List Word}
      (finished : (before.alone tracing).evaluate host steps line =
        some (.error (.eval error) failed))
      (stopped : failed.code = .atom name :: rest)
      (confined : (before.alone tracing).ThroughoutEvaluation host line (Confined host)) :
      Transaction host line before
        (.echo (name ++ " error: " ++ error.message) :: failed.calls)
        { before with world := host.echo (name ++ " error: " ++ error.message) failed.world }

/-- What becomes of lines that are typed one after the other: the calls that are made, latest first,
and what then lies on the desk. Every line is asked for, and at the end there is no more input. -/
inductive Session (host : Host σ) : List String → Desk σ → List Event → Desk σ → Prop where
  | ended {desk : Desk σ} {world : σ}
      (answer : host.prompt "> " desk.world = (.endOfInput, world)) :
      Session host [] desk [.prompt "> "] { desk with data := .str "" :: desk.data, world }
  | typed {desk middle last : Desk σ} {world : σ} {line : String} {lines : List String}
      {calls later : List Event}
      (answer : host.prompt "> " desk.world = (.line line, world))
      (transaction : Transaction host line { desk with world } calls middle)
      (session : Session host lines middle later last) :
      Session host (line :: lines) desk (later ++ calls ++ [.prompt "> "]) last

variable {host : Host σ} {desk : Desk σ}
variable {data code : List Word} {dictionary : Dictionary} {world : σ}
variable {recovery : List Snapshot} {log : List Event} {name : String}

/-! ## The loop -/

/-- A dictionary gives the words of the loop the meanings that they have in the library. -/
def Supports (dictionary : Dictionary) : Prop :=
  ∀ name ∈ words, dictionary.get? name = Library.dictionary.get? name

theorem Supports.primitive
    (supports : Supports dictionary)
    (builtin : Builtin)
    (used : builtin.name ∈ words) :
    dictionary.get? builtin.name = some (.primitive builtin) :=
  Library.Provides.primitive supports builtin used

/-- What is done on a turn of the loop. -/
def turn : Word :=
  .list
    [.atom "try",
      .list [.atom "eval", .atom "parse", .atom "prompt", .str "> "],
      .list [.atom "echo"]]

/-- The code between two turns. -/
def idle : List Word := [turn, .atom "loop"]

/-- The code below a line that has been typed. -/
def closing : List Word := .atom "popeh" :: idle

/-- The snapshot of the region in which a line is run. -/
def snapshot (desk : Desk σ) : Snapshot :=
  ⟨desk.dictionary, desk.data, .atom "echo" :: idle⟩

/-- The machine that is about to ask for a line. -/
def asking (log : List Event) (desk : Desk σ) : Machine σ :=
  Desk.machine (.atom "prompt" :: .atom "parse" :: .atom "eval" :: closing) [snapshot desk] log
    { desk with data := .str "> " :: desk.data }

/-- The machine that has been given a line. -/
def given (line : String) (log : List Event) (desk : Desk σ) : Machine σ :=
  Desk.machine (.atom "parse" :: .atom "eval" :: closing) [snapshot desk] log
    { desk with data := .str line :: desk.data }

/-- A turn opens a region, in which a line is asked for. -/
theorem leads_asking (supports : Supports desk.dictionary) :
    Leads host (desk.machine idle [] log) (asking log desk) := by
  have provides : Library.Provides Repetition.loopWords desk.dictionary :=
    fun name used => supports name (List.mem_append_left _ used)
  refine leads_list.trans ((Repetition.leads_loop provides).trans ?_)
  refine leads_list.trans (leads_list.trans ?_)
  refine (leads_protect (supports.primitive .protect (by decide))).trans ?_
  exact leads_literal (by simp)

/-! ## Lines -/

theorem calls_append (machine : Machine σ) (log : List Event) :
    (machine.calls ++ log).filter (fun event => !event.isTrace) =
      machine.calls ++ log.filter fun event => !event.isTrace := by
  simp [calls]

section Line

variable {steps : Nat} {start last failed : Machine σ} {rest : List Word} {error : EvalError}
variable {snapshot : Snapshot}
variable (below : List Word) (around : List Snapshot)

/-- A run that keeps to its own code and regions leads to the same at the desk. -/
theorem leads_within
    (advances : Advances host steps start last)
    (confined : start.Throughout host (Confined host))
    (outside : start.recovery = [])
    (silent : start.calls = []) :
    Leads host (start.desk.machine (start.code ++ below) around log)
      (last.desk.machine (last.code ++ below) (last.recovery.map (Snapshot.atop below) ++ around)
        (last.calls ++ log)) := by
  intro other mirrors
  have lifted : (start.atop below around).Mirrors other.calls other := by
    refine ⟨mirrors.data, mirrors.code, mirrors.dictionary, ?_, mirrors.world, ?_⟩
    · rw [mirrors.recovery, atop, outside]
      rfl
    · change other.calls = start.calls ++ other.calls
      rw [silent, List.nil_append]
  obtain ⟨later, further, same⟩ := lifted.advances
    (advances.atop below around fun earlier state _ reached => confined earlier state reached)
  refine ⟨steps, later, further, ?_⟩
  refine ⟨same.data, same.code, same.dictionary, same.recovery, same.world, ?_⟩
  rw [same.calls, mirrors.calls, List.append_nil, List.append_nil]
  exact (calls_append last log).symm

/-- If such a run stops at an atom that fails, the failure leads back to the region around it. -/
theorem leads_failing
    (advances : Advances host steps start last)
    (confined : start.Throughout host (Confined host))
    (outside : start.recovery = [])
    (silent : start.calls = [])
    (next : last.code = .atom name :: rest)
    (regions : last.recovery = [])
    (failure : Action.execute host name (last.begun name rest) = .error (.eval error) failed) :
    Leads host (start.desk.machine (start.code ++ below) (snapshot :: around) log)
      (Desk.machine snapshot.code around (last.calls ++ log)
        ⟨.str (diagnostic name error) :: snapshot.data, snapshot.dictionary, last.world⟩) := by
  refine (leads_within below (snapshot :: around) advances confined outside silent).trans ?_
  let stopped := last.desk.machine (last.code ++ below)
    (last.recovery.map (Snapshot.atop below) ++ snapshot :: around) (last.calls ++ log)
  have looks : (last.atop below (snapshot :: around)).Mirrors
      (log.filter fun event => !event.isTrace) stopped :=
    ⟨rfl, rfl, rfl, rfl, rfl, calls_append last log⟩
  have above := execute_atop below (snapshot :: around) (confined steps last advances) next
  rw [failure] at above
  obtain ⟨failedToo, failureToo, -⟩ := looks.execute_error above
  have code : stopped.code = .atom name :: (rest ++ below) := by
    change last.code ++ below = _
    rw [next, List.cons_append]
  have innermost : stopped.recovery = snapshot :: around := by
    change last.recovery.map (Snapshot.atop below) ++ snapshot :: around = _
    rw [regions, List.map_nil, List.nil_append]
  exact leads_failure code failureToo innermost

end Line

/-- A line that is evaluated alone and can be read is run. -/
theorem exists_run_of_evaluate
    {tracing : Bool}
    {steps : Nat}
    {line : String}
    {outcome : Outcome σ}
    (finished : (desk.alone tracing).evaluate host steps line = some outcome)
    (read : ∀ error machine, outcome ≠ .error (.ofReadError error) machine)
    (confined : (desk.alone tracing).ThroughoutEvaluation host line (Confined host)) :
    ∃ words count last,
      Source.parse line = .ok words ∧
      Advances host count { desk.alone tracing with code := words.reverse } last ∧
      last.step host = .ended outcome ∧
      { desk.alone tracing with code := words.reverse }.Throughout host (Confined host) := by
  rcases evaluate_eq_some finished with ⟨error, -, failed⟩ | ⟨words, parsed, ended⟩
  · exact absurd failed (read error _)
  · have code : words.reverse ++ (desk.alone tracing).code = words.reverse := List.append_nil _
    have throughout := confined words parsed
    rw [code] at ended throughout
    obtain ⟨count, last, advances, done⟩ := exists_advances_of_run ended
    exact ⟨words, count, last, parsed, advances, done, throughout⟩

/-- A line that can be read is put on the code stack. -/
theorem leads_given
    {line : String}
    {words : List Word}
    (supports : Supports desk.dictionary)
    (parsed : Source.parse line = .ok words) :
    Leads host (given line log desk)
      (desk.machine (words.reverse ++ closing) [snapshot desk] log) :=
  (leads_parse (supports.primitive .parse (by decide)) parsed).trans
    (leads_eval (supports.primitive .eval (by decide)))

theorem leads_kept
    {tracing : Bool}
    {steps : Nat}
    {line : String}
    {after : Machine σ}
    (supports : Supports desk.dictionary)
    (finished : (desk.alone tracing).evaluate host steps line = some (.ok () after))
    (closed : after.recovery = [])
    (confined : (desk.alone tracing).ThroughoutEvaluation host line (Confined host))
    (unchanged : ∀ name ∈ words, after.dictionary.get? name = desk.dictionary.get? name) :
    Leads host (given line log desk) (after.desk.machine idle [] (after.calls ++ log)) := by
  obtain ⟨program, count, last, parsed, advances, done, throughout⟩ :=
    exists_run_of_evaluate finished (by simp) confined
  obtain ⟨noCode, rfl⟩ := eq_commit_of_step_ended done
  have regions : last.recovery = [] := closed
  refine (leads_given supports parsed).trans ?_
  refine (leads_within closing [snapshot desk] advances throughout rfl rfl).trans ?_
  rw [noCode, regions]
  refine leads_unprotect ?_
  exact (unchanged "popeh" (by decide)).trans (supports.primitive .unprotect (by decide))

theorem leads_misread
    {line : String}
    {error : Source.SyntaxError}
    (supports : Supports desk.dictionary)
    (flaw : Source.parse line = .error (.flawed error)) :
    Leads host (given line log desk)
      (Desk.machine idle [] (.echo ("parse error: " ++ error.message) :: log)
        { desk with world := host.echo ("parse error: " ++ error.message) desk.world }) := by
  have bound : desk.dictionary.get? "parse" = some (.primitive .parse) :=
    supports.primitive .parse (by decide)
  have failure : Action.execute host "parse"
      ((given line log desk).begun "parse" (.atom "eval" :: closing)) =
      .error (.eval (.badParse error)) _ :=
    (execute_of_primitive bound).trans (Action.perform_parse_of_error rfl flaw)
  refine (leads_failure rfl failure rfl).trans ?_
  exact leads_echo (supports.primitive .echo (by decide))

theorem leads_undone
    {tracing : Bool}
    {steps : Nat}
    {line : String}
    {error : EvalError}
    {failed : Machine σ}
    {rest : List Word}
    (supports : Supports desk.dictionary)
    (finished : (desk.alone tracing).evaluate host steps line = some (.error (.eval error) failed))
    (stopped : failed.code = .atom name :: rest)
    (confined : (desk.alone tracing).ThroughoutEvaluation host line (Confined host)) :
    Leads host (given line log desk)
      (Desk.machine idle []
        (.echo (name ++ " error: " ++ error.message) :: (failed.calls ++ log))
        { desk with world := host.echo (name ++ " error: " ++ error.message) failed.world }) := by
  have read : ∀ cause machine,
      (.error (.eval error) failed : Outcome σ) ≠ .error (.ofReadError cause) machine := by
    intro cause machine same
    cases cause <;> cases same
  obtain ⟨program, count, last, parsed, advances, done, throughout⟩ :=
    exists_run_of_evaluate finished read confined
  obtain ⟨culprit, below, failedStep, next, regions, failure, rfl⟩ := exists_failure_of_step done
  have untouched := withdrawn_untouched next
  cases stopped
  rw [untouched.calls, untouched.world]
  refine (leads_given supports parsed).trans ?_
  refine (leads_failing closing [] advances throughout rfl rfl next regions failure).trans ?_
  exact leads_echo (supports.primitive .echo (by decide))

section Transaction

variable {line : String} {calls : List Event} {after : Desk σ}

theorem Transaction.leads
    (transaction : Transaction host line desk calls after)
    (supports : Supports desk.dictionary) :
    Leads host (given line log desk) (after.machine idle [] (calls ++ log)) := by
  cases transaction with
  | kept finished closed confined unchanged =>
      exact leads_kept supports finished closed confined unchanged
  | misread flaw => exact leads_misread supports flaw
  | undone finished stopped confined => exact leads_undone supports finished stopped confined

theorem Transaction.supports
    (transaction : Transaction host line desk calls after)
    (supports : Supports desk.dictionary) :
    Supports after.dictionary := by
  cases transaction with
  | kept _ _ _ unchanged =>
      intro name member
      exact (unchanged name member).trans (supports name member)
  | misread | undone => exact supports

theorem Transaction.not_isTrace
    (transaction : Transaction host line desk calls after) :
    ∀ event ∈ calls, event.isTrace = false := by
  cases transaction with
  | kept => simp [Machine.calls]
  | misread => simp [Event.isTrace]
  | undone => simp [Machine.calls, Event.isTrace]

end Transaction

/-! ## Whole sessions -/

section Session

variable {lines : List String} {calls : List Event} {last : Desk σ}

/-- A session leads to its end. Between two turns nothing is on the code stack but the loop. -/
theorem Session.leads
    (session : Session host lines desk calls last)
    (supports : Supports desk.dictionary) :
    Leads host (desk.machine idle [] log) (last.machine [] [] (calls ++ log)) := by
  induction session generalizing log with
  | ended answer =>
      refine (leads_asking supports).trans ?_
      exact leads_prompt_end (supports.primitive .prompt (by decide)) answer
  | typed answer transaction _ inductionHypothesis =>
      refine (leads_asking supports).trans ?_
      refine (leads_prompt_line (supports.primitive .prompt (by decide)) answer).trans ?_
      refine (transaction.leads supports).trans ?_
      rw [List.append_assoc, List.append_assoc]
      exact inductionHypothesis (transaction.supports supports)

theorem Session.not_isTrace
    (session : Session host lines desk calls last) :
    ∀ event ∈ calls, event.isTrace = false := by
  induction session with
  | ended => simp [Event.isTrace]
  | typed _ transaction _ inductionHypothesis =>
      simp only [List.forall_mem_append, List.forall_mem_singleton]
      exact ⟨⟨inductionHypothesis, transaction.not_isTrace⟩, rfl⟩

/-- The word `repl` holds a session. Whatever lines are typed, if each of them, evaluated alone on
what lies on the desk when it is asked for, comes to its end or fails, and keeps to its own code and
regions, then the machine asks for them one after the other and makes of each what becomes of it
alone. It ends normally at the end of the input, with nothing left to execute and no region open. -/
theorem repl_holds_session
    {tracing : Bool}
    {machine : Machine σ}
    (start : machine.code = [.atom "repl"])
    (outside : machine.recovery = [])
    (initial : ∀ name ∈ "repl" :: words,
      machine.dictionary.get? name =
        (Library.fresh host tracing world).dictionary.get? name)
    (session : Session host lines machine.desk calls last) :
    ∃ steps final,
      run host steps machine = some (.ok () final) ∧
      final.code = [] ∧
      final.recovery = [] ∧
      final.desk = last ∧
      final.calls = calls ++ machine.calls := by
  rw [Library.dictionary_fresh] at initial
  obtain ⟨found, supports⟩ := List.forall_mem_cons.mp initial
  have bound : machine.desk.dictionary.get? "repl" =
      some (.defined ⟨0, 1, false⟩ (.list [.atom "loop", turn])) := found.trans rfl
  have mirrors : (machine.desk.machine [.atom "repl"] [] machine.log).Mirrors [] machine :=
    ⟨rfl, start, rfl, outside, rfl, (List.append_nil _).symm⟩
  have begins : Leads host (machine.desk.machine [.atom "repl"] [] machine.log)
      (machine.desk.machine idle [] machine.log) := leads_call bound rfl
  obtain ⟨steps, later, advances, same⟩ :=
    begins.trans (session.leads supports) machine mirrors
  refine ⟨steps + 1, later.mapStacks Stacks.commit,
    advances.run_eq_ended (step_of_no_code same.code), same.code, same.recovery, ?_, ?_⟩
  · change Desk.mk later.data later.dictionary later.world = last
    rw [same.data, same.dictionary, same.world]
    rfl
  · have told : (calls ++ machine.log).filter (fun event => !event.isTrace) =
        calls ++ machine.calls := by
      rw [List.filter_append, List.filter_eq_self.mpr]
      · rfl
      · simpa using session.not_isTrace
    exact (same.calls.trans (List.append_nil _)).trans told

end Session

/-- Of three lines, the first is kept, the second fails after it has changed the data, and the third
cannot be read. -/
theorem repl_holds_session_of_three_lines :
    let desk (data : List Word) (typed : List (Option String)) : Desk Console :=
      ⟨data, Library.dictionary, { typed }⟩
    let machine : Machine Console :=
      (desk [.int 7] [some "echo dup \"hi\"", some "foo drop", some "\x7d"]).machine
        [.atom "repl"] [] []
    ∃ steps final,
      run Console.host steps machine = some (.ok () final) ∧
      final.code = [] ∧
      final.recovery = [] ∧
      final.desk = desk [.str "", .str "hi", .int 7] [] ∧
      final.calls =
        [.prompt "> ", .echo "parse error: missing \x7b", .prompt "> ",
          .echo "foo error: can't understand foo", .prompt "> ", .echo "hi", .prompt "> "] := by
  intro desk machine
  have shown : Transaction Console.host "echo dup \"hi\""
      (desk [.int 7] [some "foo drop", some "\x7d"]) [.echo "hi"]
      (desk [.str "hi", .int 7] [some "foo drop", some "\x7d"]) := by
    have parsed : Source.parse "echo dup \"hi\"" = .ok [.atom "echo", .atom "dup", .str "hi"] :=
      Source.parse_of_readTokens rfl
    have ends : ((desk [.int 7] [some "foo drop", some "\x7d"]).alone false).evaluate
        Console.host 6 "echo dup \"hi\"" =
        some (.ok () (Desk.machine [] [] [.echo "hi"]
          (desk [.str "hi", .int 7] [some "foo drop", some "\x7d"]))) :=
      (evaluate_of_parse Console.host 6 parsed _).trans rfl
    refine .kept ends rfl (throughoutEvaluation_of_parse parsed ?_) fun name _ => rfl
    iterate 5 refine .of_running (of_decide_eq_true rfl) rfl ?_
    exact .of_ended (of_decide_eq_true rfl) rfl
  have unknown : Transaction Console.host "foo drop" (desk [.str "hi", .int 7] [some "\x7d"])
      [.echo "foo error: can't understand foo"] (desk [.str "hi", .int 7] [some "\x7d"]) := by
    have parsed : Source.parse "foo drop" = .ok [.atom "foo", .atom "drop"] :=
      Source.parse_of_readTokens rfl
    have fails : ((desk [.str "hi", .int 7] [some "\x7d"]).alone false).evaluate Console.host 2
        "foo drop" = some (.error (.eval (.unknown "foo")) _) :=
      (evaluate_of_parse Console.host 2 parsed _).trans rfl
    have undone := Transaction.undone fails rfl (throughoutEvaluation_of_parse parsed ?_)
    · exact undone
    · refine .of_running (of_decide_eq_true rfl) rfl ?_
      exact .of_ended (of_decide_eq_true rfl) rfl
  have unread : Transaction Console.host "\x7d" (desk [.str "hi", .int 7] [])
      [.echo "parse error: missing \x7b"] (desk [.str "hi", .int 7] []) := by
    have misread : Transaction Console.host "\x7d" (desk [.str "hi", .int 7] []) _ _ :=
      .misread (Source.parse_of_readTokens rfl)
    exact misread
  have session : Session Console.host ["echo dup \"hi\"", "foo drop", "\x7d"] machine.desk _ _ :=
    .typed rfl shown (.typed rfl unknown (.typed rfl unread (.ended rfl)))
  have initial : ∀ name ∈ "repl" :: words, machine.dictionary.get? name =
      (Library.fresh Console.host false {}).dictionary.get? name := by
    rw [Library.dictionary_fresh]
    exact fun name _ => rfl
  exact repl_holds_session rfl rfl initial session

end Interaction
end Concatenative
