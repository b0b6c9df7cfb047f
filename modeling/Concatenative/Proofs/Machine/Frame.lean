import Concatenative.Library
import Concatenative.Machine.Question
import Concatenative.Proofs.Machine.History
import Concatenative.Proofs.Machine.Steps

/-!
# What lies below

A step works at the top of the code stack and at the top of the recovery stack. As long as it does
not reach for code that is not there, halt the machine, show the code or leave a region that is not
open, it does the same with more code below and more regions around. So does a whole run.
-/

namespace Concatenative

/-- The snapshot, with more code below the code that it goes back to. -/
def Snapshot.atop (below : List Word) (snapshot : Snapshot) : Snapshot :=
  { snapshot with code := snapshot.code ++ below }

/-- The machine, with more code below its own and more regions around its own. The code is also
below that of its snapshots. -/
def Machine.atop {σ : Type} (below : List Word) (around : List Snapshot) (machine : Machine σ) :
    Machine σ :=
  { machine with
    code := machine.code ++ below
    recovery := machine.recovery.map (Snapshot.atop below) ++ around }

theorem Machine.code_atop
    {σ : Type}
    {machine : Machine σ}
    {word : Word}
    {rest : List Word}
    (code : machine.code = word :: rest)
    (below : List Word)
    (around : List Snapshot) :
    (machine.atop below around).code = word :: (rest ++ below) := by
  rw [atop, code, List.cons_append]

/-- The number of words that a built-in word takes from the code stack. -/
def Builtin.codeOperands : Builtin → Nat
  | .assign => 1
  | .quote => 1
  | .arrange => 4
  | _ => 0

namespace Action

variable {σ : Type} {α : Type} {host : Host σ} {powers : Powers}
variable (below : List Word) (around : List Snapshot)

/-! ## Actions that do not reach below -/

theorem pop_atop : CommutesWith (Machine.atop below around) (pop : Action σ Word) := by
  intro machine
  cases data : machine.data with
  | nil => simp only [pop, ofStacks, Stacks.pop?, Machine.atop, data, mapFinal]
  | cons word rest => simp only [pop, ofStacks, Stacks.pop?, Machine.atop, data, mapFinal]

theorem loadCode_atop (words : List Word) :
    CommutesWith (Machine.atop below around) (loadCode words : Action σ Unit) := by
  intro machine
  have code : words.reverse ++ (machine.code ++ below) = words.reverse ++ machine.code ++ below :=
    (List.append_assoc _ _ _).symm
  exact congrArg (fun code => EStateM.Result.ok ()
    { (loadCode words).leaves (machine.atop below around) with code }) code

theorem Tentative.atop
    {action : Action σ α}
    (tentative : Tentative powers action)
    (idle : powers.takes = false) :
    CommutesWith (Machine.atop below around) action := by
  induction tentative with
  | pure | throw | dataStack | push | putCode | clearData => exact fun machine => rfl
  | lookup name => exact lookup_commutes (Machine.atop below around) (fun machine => rfl) name
  | pop => exact pop_atop below around
  | takeCode allowed =>
      rw [idle] at allowed
      cases allowed
  | loadCode words => exact loadCode_atop below around words
  | bind _ _ firstCommutes nextCommutes => exact .bind firstCommutes nextCommutes

theorem keepsCalls_atop : KeepsCalls (Machine.atop below around : Machine σ → Machine σ) where
  world _ := rfl
  called _ _ _ _ := rfl

theorem Concluding.atop
    {action : Action σ α}
    (concluding : Concluding host powers action)
    (blind : powers.looks = false)
    (confined : powers.regional = false) :
    CommutesWith (Machine.atop below around) action := by
  induction concluding with
  | pure | interrupt | push | putCode | define | echo | prompt => exact fun machine => rfl
  | codeStack allowed =>
      rw [blind] at allowed
      cases allowed
  | loadCode words => exact loadCode_atop below around words
  | halt allowed | enterRegion _ allowed | leaveRegion allowed =>
      rw [confined] at allowed
      cases allowed
  | load path => exact (keepsCalls_atop below around).load host path
  | command name args => exact (keepsCalls_atop below around).command host name args
  | bind _ _ firstCommutes nextCommutes => exact .bind firstCommutes nextCommutes

theorem removeAt_atop (index : Int) :
    CommutesWith (Machine.atop below around) (removeAt index : Action σ Word) := by
  intro machine
  have entry : (machine.atop below around).toStacks.entry? index = machine.toStacks.entry? index :=
    rfl
  cases found : machine.toStacks.entry? index with
  | none =>
      have tentative : Tentative {} (failAt index : Action σ Word) := .failAt index
      simp only [removeAt, Stacks.removeAt?, entry, found]
      exact tentative.atop below around rfl machine
  | some word =>
      simp only [removeAt, Stacks.removeAt?, entry, found]
      rfl

/-- An action that neither takes nor shows code nor manages regions does not notice what lies
below. -/
theorem Staged.atop
    {action : Action σ Unit}
    (staged : Staged host powers action)
    (idle : powers.takes = false)
    (blind : powers.looks = false)
    (confined : powers.regional = false) :
    CommutesWith (Machine.atop below around) action := by
  induction staged with
  | tentative tentative => exact tentative.atop below around idle
  | concluding concluding => exact concluding.atop below around blind confined
  | move index => exact .bind (removeAt_atop below around index) fun word machine => rfl
  | bind tentative _ inductionHypothesis =>
      exact .bind (tentative.atop below around idle) inductionHypothesis

/-! ## Built-in words that reach for code and regions -/

theorem enterRegion_atop (handler : List Word) :
    CommutesWith (Machine.atop below around) (enterRegion handler : Action σ Unit) := by
  intro machine
  have code : handler.reverse ++ (machine.code ++ below) =
      handler.reverse ++ machine.code ++ below := (List.append_assoc _ _ _).symm
  exact congrArg (fun code => EStateM.Result.ok ()
    { machine.atop below around with
      recovery := ⟨machine.dictionary, machine.data, code⟩ ::
        (machine.atop below around).recovery }) code

theorem perform_protect_atop :
    CommutesWith (Machine.atop below around) (perform host .protect) := by
  have reads : CommutesWith (Machine.atop below around) (popAs Word.asList : Action σ _) :=
    (Tentative.popAs Word.asList : Tentative {} _).atop below around rfl
  refine .bind reads fun body => .bind reads fun handler => ?_
  refine .bind (enterRegion_atop below around handler) fun _ => ?_
  exact .bind (fun machine => rfl) fun _ => loadCode_atop below around body

theorem leaveRegion_atop
    {machine : Machine σ}
    (entered : machine.recovery ≠ []) :
    leaveRegion (machine.atop below around) =
      mapFinal (Machine.atop below around) (leaveRegion machine) := by
  cases regions : machine.recovery with
  | nil => exact absurd regions entered
  | cons snapshot outer =>
      have left : ∀ before : Machine σ,
          leaveRegion before = .ok () { before with recovery := before.recovery.drop 1 } :=
        fun _ => rfl
      simp only [left, mapFinal, Machine.atop, regions, List.map_cons, List.cons_append,
        List.drop_succ_cons, List.drop_zero]

/-- A word that is there is taken in the same way. -/
theorem takeCode_then_atop
    {β : Type}
    {next : Word → Action σ β}
    {machine : Machine σ}
    {word : Word}
    {rest : List Word}
    (code : machine.code = word :: rest)
    (follows :
      let taken := { machine with code := rest, journal := .taken word :: machine.journal }
      next word (taken.atop below around) =
        mapFinal (Machine.atop below around) (next word taken)) :
    (takeCode >>= next) (machine.atop below around) =
      mapFinal (Machine.atop below around) ((takeCode >>= next) machine) := by
  have above := Machine.code_atop code below around
  rw [bind_of_ok (takeCode_of_cons code), bind_of_ok (takeCode_of_cons above)]
  exact follows

theorem perform_quote_atop
    {machine : Machine σ}
    (operands : 1 ≤ machine.code.length) :
    perform host .quote (machine.atop below around) =
      mapFinal (Machine.atop below around) (perform host .quote machine) := by
  obtain ⟨word, rest, code⟩ := List.exists_cons_of_length_pos operands
  exact takeCode_then_atop below around code rfl

theorem perform_assign_atop
    {machine : Machine σ}
    (operands : 1 ≤ machine.code.length) :
    perform host .assign (machine.atop below around) =
      mapFinal (Machine.atop below around) (perform host .assign machine) := by
  obtain ⟨word, rest, code⟩ := List.exists_cons_of_length_pos operands
  have reads : CommutesWith (Machine.atop below around) (ofExcept word.asAtom : Action σ String) :=
    (Tentative.ofExcept _ : Tentative {} _).atop below around rfl
  have binds : ∀ name, CommutesWith (Machine.atop below around)
      (pop >>= fun value => define name value : Action σ Unit) := fun name =>
    .bind (pop_atop below around) fun value machine => rfl
  exact takeCode_then_atop below around code (CommutesWith.bind reads binds _)

theorem perform_arrange_atop
    {machine : Machine σ}
    (operands : 4 ≤ machine.code.length) :
    perform host .arrange (machine.atop below around) =
      mapFinal (Machine.atop below around) (perform host .arrange machine) := by
  obtain ⟨right, operation, left, mark, rest, code⟩ :
      ∃ right operation left mark rest,
        machine.code = right :: operation :: left :: mark :: rest := by
    match words : machine.code, operands with
    | right :: operation :: left :: mark :: rest, _ =>
        exact ⟨right, operation, left, mark, rest, rfl⟩
  refine takeCode_then_atop below around code (takeCode_then_atop below around rfl ?_)
  refine takeCode_then_atop below around rfl (takeCode_then_atop below around rfl ?_)
  split
  · exact loadCode_atop below around _ _
  · rfl

theorem perform_prompt_atop
    {machine : Machine σ}
    (answered : machine.answer? host ≠ some .endOfInput) :
    perform host .prompt (machine.atop below around) =
      mapFinal (Machine.atop below around) (perform host .prompt machine) := by
  refine bind_commutes (pop_atop below around machine) fun word popped result => ?_
  refine bind_commutes rfl fun reply asked answer => ?_
  cases data : machine.data with
  | nil => simp only [pop, ofStacks, Stacks.pop?, data, reduceCtorEq] at result
  | cons top rest =>
      rw [pop_of_cons data] at result
      cases result
      cases reply with
      | line text => rfl
      | interrupted => rfl
      | endOfInput =>
          have ended : (host.prompt word.intoString machine.world).1 = .endOfInput := by
            injection answer
          simp [Machine.answer?, data, ended] at answered

/-- Entering a region, or leaving one that is open, does not notice what lies below. Neither does a
word that finds its operands in the code, or a prompt that is answered. -/
theorem perform_atop
    (host : Host σ)
    (builtin : Builtin)
    (machine : Machine σ)
    (operands : builtin.codeOperands ≤ machine.code.length)
    (goesOn : builtin ≠ .bye)
    (answered : builtin = .prompt → machine.answer? host ≠ some .endOfInput)
    (hidden : builtin ≠ .debug)
    (entered : builtin = .unprotect → machine.recovery ≠ []) :
    perform host builtin (machine.atop below around) =
      mapFinal (Machine.atop below around) (perform host builtin machine) := by
  cases builtin with
  | bye => exact absurd rfl goesOn
  | debug => exact absurd rfl hidden
  | protect => exact perform_protect_atop below around machine
  | unprotect => exact leaveRegion_atop below around (entered rfl)
  | prompt => exact perform_prompt_atop below around (answered rfl)
  | quote => exact perform_quote_atop below around operands
  | assign => exact perform_assign_atop below around operands
  | arrange => exact perform_arrange_atop below around operands
  | _ => exact (perform_staged host _).atop below around rfl rfl rfl machine

end Action

namespace Machine

variable {σ : Type} {host : Host σ} {machine next final failed : Machine σ}
variable {name : String} {rest : List Word} {error : EvalError}

/-! ## Steps that do not reach below -/

/-- The next step halts the machine: it says goodbye, or asks for a line at the end of the input. -/
def Halts (host : Host σ) (machine : Machine σ) : Prop :=
  (∃ executed ∈ machine.executing?, executed.1 = .bye) ∨ machine.MeetsEndOfInput host

instance (host : Host σ) (machine : Machine σ) : Decidable (machine.Halts host) :=
  inferInstanceAs (Decidable (_ ∨ _))

/-- The next step keeps to the machine's own code and regions. -/
structure Confined (host : Host σ) (machine : Machine σ) : Prop where
  /-- No word is taken from an empty code stack. -/
  operands : ∀ executed ∈ machine.executing?, executed.1.codeOperands ≤ executed.2.length
  /-- The machine is not halted. -/
  goesOn : ¬machine.Halts host
  /-- The code stack is not shown. -/
  hidden : ∀ executed ∈ machine.executing?, executed.1 ≠ .debug
  /-- No region is left when none is open. -/
  entered : ∀ executed ∈ machine.executing?, executed.1 = .unprotect → machine.recovery ≠ []

instance (host : Host σ) (machine : Machine σ) : Decidable (machine.Confined host) :=
  decidable_of_iff
    ((∀ executed ∈ machine.executing?, executed.1.codeOperands ≤ executed.2.length) ∧
      ¬machine.Halts host ∧
      (∀ executed ∈ machine.executing?, executed.1 ≠ .debug) ∧
      ∀ executed ∈ machine.executing?, executed.1 = .unprotect → machine.recovery ≠ [])
    ⟨fun ⟨operands, goesOn, hidden, entered⟩ => ⟨operands, goesOn, hidden, entered⟩,
      fun ⟨operands, goesOn, hidden, entered⟩ => ⟨operands, goesOn, hidden, entered⟩⟩

variable (below : List Word) (around : List Snapshot)

theorem begun_atop :
    (machine.atop below around).begun name (rest ++ below) =
      (machine.begun name rest).atop below around := by
  cases tracing : machine.tracing <;>
    simp [begun, atop, trace, note, mapStacks, Stacks.commit, tracing]

/-- Executing an atom does not notice what lies below. -/
theorem execute_atop
    (confined : machine.Confined host)
    (next : machine.code = .atom name :: rest) :
    Action.execute host name ((machine.atop below around).begun name (rest ++ below)) =
      Action.mapFinal (atop below around) (Action.execute host name (machine.begun name rest)) := by
  rw [begun_atop]
  refine Action.bind_commutes
    (Action.lookup_commutes (atop below around) (fun machine => rfl) name _) ?_
  intro binding begun found
  cases bound : (machine.begun name rest).dictionary.get? name with
  | none =>
      rw [Action.lookup_of_none bound] at found
      cases found
  | some meaning =>
      rw [Action.lookup_of_some bound] at found
      cases found
      cases binding with
      | defined effect word =>
          exact (Action.Tentative.call effect word rfl rfl :
            Action.Tentative { loads := true, surveys := true } _).atop below around rfl _
      | primitive builtin =>
          rw [dictionary_begun] at bound
          have executing := executing?_of_primitive next bound
          have operands := confined.operands _ executing
          refine Action.perform_atop below around host builtin _ ?_ ?_ ?_ ?_ ?_
          · simpa using operands
          · rintro rfl
            exact confined.goesOn (.inl ⟨_, executing, rfl⟩)
          · rintro rfl ends
            refine confined.goesOn (.inr ⟨⟨_, executing, rfl⟩, ?_⟩)
            simpa only [answer?, data_begun, world_begun] using ends
          · exact confined.hidden _ executing
          · rw [recovery_begun]
            exact confined.entered _ executing

theorem recover_atop (snapshot : Snapshot) (outer : List Snapshot) :
    (machine.atop below around).recover name error (snapshot.atop below)
        (outer.map (Snapshot.atop below) ++ around) =
      (machine.recover name error snapshot outer).atop below around := by
  cases tracing : machine.tracing <;>
    simp [recover, atop, Snapshot.atop, trace, note, mapStacks, Stacks.push, tracing]

/-- A step that keeps to the machine's own code and regions does the same whatever lies below. -/
theorem step_atop
    (confined : machine.Confined host)
    (progress : machine.step host = .running next) :
    (machine.atop below around).step host = .running (next.atop below around) := by
  have takes := step_takes host machine
  rw [progress] at takes
  cases takes with
  | shifted word rest literal code => exact step_of_literal literal (code_atop code below around)
  | executed name rest after code done =>
      refine step_of_execute_ok (code_atop code below around) ?_
      rw [execute_atop below around confined code, done]
      rfl
  | recovered name rest error failed snapshot outer code failure regions =>
      rw [← recover_atop]
      refine step_of_failure_inside (code_atop code below around) ?_ ?_
      · rw [execute_atop below around confined code, failure]
        rfl
      · rw [atop, regions]
        rfl

/-- A run of steps that keep to the machine's own code and regions does the same whatever lies
below. -/
theorem Advances.atop
    {steps : Nat}
    (advances : Advances host steps machine final)
    (confined : ∀ earlier state, earlier < steps → Advances host earlier machine state →
      state.Confined host) :
    Advances host steps (machine.atop below around) (final.atop below around) := by
  induction advances with
  | start => exact .start _
  | step progress later inductionHypothesis =>
      refine .step (step_atop below around (confined 0 _ (by omega) (.start _)) progress) ?_
      refine inductionHypothesis fun earlier state bound reached => ?_
      exact confined (earlier + 1) state (by omega) (.step progress reached)

/-- Whatever code and regions are put below a machine, a run of any number of steps that keep to its
own code and regions takes the same steps: it makes the same calls to the host, and it reaches the
same dictionary and the same data, with that code and those regions still below. -/
theorem run_above
    {steps : Nat}
    (advances : Advances host steps machine final)
    (confined : ∀ earlier state, earlier < steps → Advances host earlier machine state →
      state.Confined host) :
    ∃ reached,
      Advances host steps (machine.atop below around) reached ∧
      reached.dictionary = final.dictionary ∧
      reached.data = final.data ∧
      reached.code = final.code ++ below ∧
      reached.recovery = final.recovery.map (Snapshot.atop below) ++ around ∧
      reached.log = final.log ∧
      reached.world = final.world :=
  ⟨final.atop below around, advances.atop below around confined, rfl, rfl, rfl, rfl, rfl, rfl⟩

/-- A region fails and is left, above a word that would leave a region and below a region that is
still open. -/
theorem run_above_failing_region :
    let machine : Machine Answer :=
      { Library.bare true {} with
        data := [.list [.atom "drop"], .list []]
        code := [.atom "try", .int 2] }
    let around : List Snapshot := [⟨[], [.int 1], [.atom "echo"]⟩]
    ∃ reached,
      Advances Answer.host 2 (machine.atop [.atom "popeh"] around) reached ∧
      reached.dictionary = machine.dictionary ∧
      reached.data = [.str "drop error: stack underflow"] ∧
      reached.code = [.int 2, .atom "popeh"] ∧
      reached.recovery = around ∧
      reached.log =
        [.recovered "drop" "stack underflow", .evaluating "drop", .evaluating "try"] ∧
      reached.world = {} := by
  intro machine around
  have advances : Advances Answer.host 2 machine _ := .step rfl (.step rfl (.start _))
  refine run_above [.atom "popeh"] around advances ?_
  intro earlier state bound reached
  match earlier, bound with
  | 0, _ =>
      cases reached
      decide
  | 1, _ =>
      obtain ⟨⟩ | ⟨progress, ⟨⟩⟩ := reached
      cases progress
      decide

end Machine
end Concatenative
