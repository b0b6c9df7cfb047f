import Concatenative.Proofs.Machine.StraightLine

/-!
# What lies below the data

A word that only pops and pushes sees no more of the data stack than the words that it pops. If it
finds these, it does the same whatever lies below them. So does a whole piece of code of such words
on a data stack that is deep enough for the effect that is inferred for the code: the effect tells
how much of the data stack the code can see.
-/

namespace Concatenative

/-- The machine, with more words at the bottom of its data stack. -/
def Machine.upon {σ : Type} (rest : List Word) (machine : Machine σ) : Machine σ :=
  { machine with data := machine.data ++ rest }

/-- A built-in word with an exact effect keeps to the top of the data stack, unless it addresses an
entry by an index. -/
theorem Builtin.surveys_of_exact
    {builtin : Builtin}
    (exact : builtin.effect.exact = true)
    (noPick : builtin ≠ .pick)
    (noRoll : builtin ≠ .roll) :
    builtin.powers.surveys = false := by
  cases builtin with
  | pick => exact absurd rfl noPick
  | roll => exact absurd rfl noRoll
  | capture | clear | protect => cases exact
  | _ => rfl

namespace Action

variable {σ : Type} {α : Type} {host : Host σ} {powers : Powers}
variable (rest : List Word)

/-! ## Actions that do not see what lies below -/

/-- Unless it complains that words are missing, an action does the same with more words at the
bottom of the data stack. -/
def Overlooks (action : Action σ α) : Prop :=
  ∀ machine, (∀ failed, action machine ≠ .error (.eval .stackUnderflow) failed) →
    action (machine.upon rest) = mapFinal (Machine.upon rest) (action machine)

variable {rest}

theorem CommutesWith.overlooks
    {action : Action σ α}
    (commutes : CommutesWith (Machine.upon rest) action) :
    Overlooks rest action :=
  fun machine _ => commutes machine

theorem Overlooks.bind
    {β : Type}
    {first : Action σ α}
    {next : α → Action σ β}
    (firstOverlooks : Overlooks rest first)
    (nextOverlooks : ∀ value, Overlooks rest (next value)) :
    Overlooks rest (first >>= next) := by
  intro machine enough
  refine bind_commutes (firstOverlooks machine ?_) ?_
  · intro failed failure
    exact enough failed (bind_of_error failure)
  · intro value middle done
    refine nextOverlooks value middle ?_
    intro failed failure
    exact enough failed ((bind_of_ok done).trans failure)

variable (rest)

theorem pop_overlooks : Overlooks rest (pop : Action σ Word) := by
  intro machine enough
  cases data : machine.data with
  | nil =>
      have refused : pop machine = .error (.eval .stackUnderflow) machine := by
        simp only [pop, ofStacks, Stacks.pop?, data]
      exact absurd refused (enough machine)
  | cons word below =>
      have above : (machine.upon rest).data = word :: (below ++ rest) := by
        rw [Machine.upon, data, List.cons_append]
      rw [pop_of_cons data, pop_of_cons above]
      rfl

theorem takeCode_upon : CommutesWith (Machine.upon rest) (takeCode : Action σ Word) := by
  intro machine
  cases code : machine.code with
  | nil => simp only [takeCode, ofStacks, Stacks.take?, Machine.upon, code, mapFinal]
  | cons word below => simp only [takeCode, ofStacks, Stacks.take?, Machine.upon, code, mapFinal]

theorem Tentative.overlooks
    {action : Action σ α}
    (tentative : Tentative powers action)
    (limited : powers.surveys = false) :
    Overlooks rest action := by
  induction tentative with
  | pure | throw | push | putCode | loadCode =>
      exact CommutesWith.overlooks fun machine => rfl
  | lookup name =>
      exact (lookup_commutes (Machine.upon rest) (fun machine => rfl) name).overlooks
  | pop => exact pop_overlooks rest
  | takeCode => exact (takeCode_upon rest).overlooks
  | dataStack allowed | clearData allowed =>
      rw [limited] at allowed
      cases allowed
  | bind _ _ firstOverlooks nextOverlooks => exact .bind firstOverlooks nextOverlooks

theorem keepsCalls_upon : KeepsCalls (Machine.upon rest : Machine σ → Machine σ) where
  world _ := rfl
  called _ _ _ _ := rfl

theorem Concluding.upon
    {action : Action σ α}
    (concluding : Concluding host powers action)
    (limited : powers.surveys = false) :
    CommutesWith (Machine.upon rest) action := by
  induction concluding with
  | pure | interrupt | codeStack | push | putCode | loadCode | define | halt | leaveRegion =>
      exact fun machine => rfl
  | enterRegion handler allowed copied =>
      rw [limited] at copied
      cases copied
  | echo text => exact (keepsCalls_upon rest).echo host text
  | prompt text => exact (keepsCalls_upon rest).prompt host text
  | load path => exact (keepsCalls_upon rest).load host path
  | command name args => exact (keepsCalls_upon rest).command host name args
  | bind _ _ firstCommutes nextCommutes => exact .bind firstCommutes nextCommutes

/-- An action without the power to reach deeper sees only the words that it pops. -/
theorem Staged.overlooks
    {action : Action σ Unit}
    (staged : Staged host powers action)
    (limited : powers.surveys = false) :
    Overlooks rest action := by
  induction staged with
  | tentative tentative => exact tentative.overlooks rest limited
  | concluding concluding => exact (concluding.upon rest limited).overlooks
  | move index allowed =>
      rw [limited] at allowed
      cases allowed
  | bind tentative _ inductionHypothesis =>
      exact .bind (tentative.overlooks rest limited) inductionHypothesis

end Action

/-- What a step leads to, with a change to the machine it leaves. -/
def Progress.map {σ : Type} (change : Machine σ → Machine σ) : Progress σ → Progress σ
  | .running next => .running (change next)
  | .ended outcome => .ended (Action.mapFinal change outcome)

namespace Machine

variable {σ : Type} {host : Host σ} {machine next : Machine σ}
variable {name : String} {below : List Word}

/-! ## Steps that do not see what lies below -/

theorem begun_upon (rest : List Word) :
    (machine.upon rest).begun name below = (machine.begun name below).upon rest := by
  cases tracing : machine.tracing <;>
    simp [begun, upon, trace, note, mapStacks, Stacks.commit, tracing]

/-- Outside all regions, a step of a built-in word that keeps to the top of the data stack and finds
its operands does the same whatever lies below them. -/
theorem step_upon
    {builtin : Builtin}
    (rest : List Word)
    (outside : machine.recovery = [])
    (code : machine.code = .atom name :: below)
    (bound : machine.dictionary.get? name = some (.primitive builtin))
    (limited : builtin.powers.surveys = false)
    (enough : ∀ failed, Action.perform host builtin (machine.begun name below) ≠
      .error (.eval .stackUnderflow) failed) :
    (machine.upon rest).step host = (machine.step host).map (Machine.upon rest) := by
  have boundToo : (machine.upon rest).dictionary.get? name = some (.primitive builtin) := bound
  have codeToo : (machine.upon rest).code = .atom name :: below := code
  have outsideToo : (machine.upon rest).recovery = [] := outside
  have same : Action.perform host builtin ((machine.upon rest).begun name below) =
      Action.mapFinal (Machine.upon rest)
        (Action.perform host builtin (machine.begun name below)) := by
    rw [begun_upon]
    exact (Action.perform_staged host builtin).overlooks rest limited _ enough
  cases performed : Action.perform host builtin (machine.begun name below) with
  | ok value after =>
      rw [performed] at same
      rw [step_of_perform_ok code bound performed, step_of_perform_ok codeToo boundToo same]
      rfl
  | error fault failed =>
      rw [performed] at same
      have failure := (execute_of_primitive bound).trans performed
      have failureToo := (execute_of_primitive boundToo).trans same
      cases fault with
      | eval error =>
          -- Both steps are taken back, so that nothing is left of what they did to the stacks.
          rw [step_withdraws outside code failure, step_withdraws outsideToo codeToo failureToo]
          simp only [Progress.map, Action.mapFinal, withdrawn, begun_upon]
          rfl
      | flawed | oversized | host | nullCharacter | interrupted | badIndex | undo =>
          rw [step_of_foreign_fault code failure (by simp),
            step_of_foreign_fault codeToo failureToo (by simp)]
          rfl

/-- A step outside all regions that goes on has executed the built-in word that was next. -/
theorem perform_of_running
    {builtin : Builtin}
    (outside : machine.recovery = [])
    (code : machine.code = .atom name :: below)
    (bound : machine.dictionary.get? name = some (.primitive builtin))
    (progress : machine.step host = .running next) :
    Action.perform host builtin (machine.begun name below) = .ok () next := by
  cases performed : Action.perform host builtin (machine.begun name below) with
  | ok value after =>
      rw [step_of_perform_ok code bound performed] at progress
      cases progress
      rfl
  | error fault failed =>
      obtain ⟨final, ended⟩ :=
        exists_ended_of_failure outside code ((execute_of_primitive bound).trans performed)
      rw [ended] at progress
      cases progress

/-! ## Code that does not see what lies below -/

/-- The machine is outside all regions, all atoms of its code are built-in words with exact effects
that address no entry by an index, and its data stack is deep enough for the code. -/
structure Supplied (machine : Machine σ) : Prop where
  /-- No region is open. -/
  outside : machine.recovery = []
  /-- The atoms are built-in words that keep to the top of the data stack. -/
  words : ∀ name, .atom name ∈ machine.code →
    ∃ builtin, machine.dictionary.get? name = some (.primitive builtin) ∧
      builtin.effect.exact = true ∧ builtin ≠ .pick ∧ builtin ≠ .roll
  /-- The words that the code takes are there. -/
  deep : (machine.dictionary.inferFrom .neutral machine.code).input ≤ machine.data.length

namespace Supplied

/-- The data stack is deep enough for the next word, and then for the code that follows. -/
theorem deep_cons
    {word : Word}
    {effect : Effect}
    (supplied : machine.Supplied)
    (code : machine.code = word :: below)
    (found : machine.dictionary.effectOf? word = some effect)
    (exact : effect.exact = true)
    (nonneg : effect.Nonneg) :
    effect.input ≤ machine.data.length ∧
      ∀ depth, effect.Fits machine.data.length depth →
        (machine.dictionary.inferFrom .neutral below).input ≤ depth := by
  have deep := supplied.deep
  rw [code, Dictionary.inferFrom_neutral_cons found exact nonneg] at deep
  refine ⟨Int.le_trans (effect.input_le_andThen _) deep, ?_⟩
  intro depth fits
  exact fits.enough deep

/-- The built-in word that is next finds its operands. -/
theorem exists_builtin
    (supplied : machine.Supplied)
    (host : Host σ)
    (code : machine.code = .atom name :: below) :
    ∃ builtin,
      machine.dictionary.get? name = some (.primitive builtin) ∧
      builtin.effect.exact = true ∧
      builtin.powers.surveys = false ∧
      (∀ failed, Action.perform host builtin (machine.begun name below) ≠
        .error (.eval .stackUnderflow) failed) ∧
      ∀ depth, builtin.effect.Fits machine.data.length depth →
        (machine.dictionary.inferFrom .neutral below).input ≤ depth := by
  obtain ⟨builtin, bound, exact, noPick, noRoll⟩ :=
    supplied.words name (code ▸ List.mem_cons_self)
  have found : machine.dictionary.effectOf? (.atom name) = some builtin.effect := by
    rw [Dictionary.effectOf?, bound]
    rfl
  obtain ⟨deep, later⟩ :=
    supplied.deep_cons code found exact (Effect.nonneg_builtin builtin)
  have deepToo : builtin.effect.input ≤ (machine.begun name below).data.length := by
    rwa [data_begun]
  have serves := Action.perform_serves host exact noPick noRoll
  refine ⟨builtin, bound, exact, Builtin.surveys_of_exact exact noPick noRoll, ?_, later⟩
  intro failed
  exact serves.enough _ failed deepToo

/-- A step does the same whatever lies below the data. -/
theorem step_upon
    (supplied : machine.Supplied)
    (host : Host σ)
    (rest : List Word) :
    (machine.upon rest).step host = (machine.step host).map (Machine.upon rest) := by
  cases code : machine.code with
  | nil =>
      have codeToo : (machine.upon rest).code = [] := code
      rw [step_of_no_code code, step_of_no_code codeToo]
      rfl
  | cons word below =>
      have codeToo : (machine.upon rest).code = word :: below := code
      cases word with
      | atom name =>
          obtain ⟨builtin, bound, -, limited, enough, -⟩ := supplied.exists_builtin host code
          exact Machine.step_upon rest supplied.outside code bound limited enough
      | int | hex | str | list | dict =>
          rw [step_of_literal (by simp) code, step_of_literal (by simp) codeToo]
          rfl

/-- A step that ends the run does not end it for lack of words. -/
theorem ne_underflow
    {failed : Machine σ}
    (supplied : machine.Supplied)
    (host : Host σ) :
    machine.step host ≠ .ended (.error (.eval .stackUnderflow) failed) := by
  intro ended
  obtain ⟨name, below, early, code, -, failure, -⟩ := exists_failure_of_step ended
  obtain ⟨builtin, bound, -, -, enough, -⟩ := supplied.exists_builtin host code
  rw [execute_of_primitive bound] at failure
  exact enough early failure

/-- A machine with nothing left to execute lacks nothing. -/
theorem of_no_code
    (outside : machine.recovery = [])
    (noCode : machine.code = []) :
    machine.Supplied where
  outside := outside
  words name member := by
    rw [noCode] at member
    cases member
  deep := by
    rw [noCode]
    exact Int.natCast_nonneg _

/-- A machine that has executed a word and got to the code below it has what this code needs. -/
theorem of_performed
    {builtin : Builtin}
    {after : Machine σ}
    (supplied : machine.Supplied)
    (code : machine.code = .atom name :: below)
    (bound : machine.dictionary.get? name = some (.primitive builtin))
    (exact : builtin.effect.exact = true)
    (goesOn : ¬machine.MeetsEndOfInput host)
    (later : ∀ depth, builtin.effect.Fits machine.data.length depth →
      (machine.dictionary.inferFrom .neutral below).input ≤ depth)
    (performed : Action.perform host builtin (machine.begun name below) = .ok () after) :
    after.Supplied ∧ after.code = below := by
  have outside : (machine.begun name below).recovery = [] := by
    rw [recovery_begun, supplied.outside]
  have fits := Action.perform_hasEffect host exact _ _ _ performed
  obtain ⟨sameCode, same, closed⟩ :=
    perform_keeps exact (answered_of_not_meets code bound goesOn) performed
  rw [data_begun] at fits
  rw [code_begun] at sameCode
  rw [dictionary_begun] at same
  refine ⟨⟨closed outside, ?_, ?_⟩, sameCode⟩
  · intro other member
    rw [sameCode] at member
    rw [same]
    exact supplied.words other (code ▸ List.mem_cons_of_mem _ member)
  · rw [same, sameCode]
    exact later _ fits

/-- A step leaves the machine with what it needs, and with less code. -/
theorem step
    (supplied : machine.Supplied)
    (progress : machine.step host = .running next) :
    next.Supplied ∧ next.code.length < machine.code.length := by
  cases code : machine.code with
  | nil =>
      rw [step_of_no_code code] at progress
      cases progress
  | cons word below =>
      cases word with
      | atom name =>
          by_cases meets : machine.MeetsEndOfInput host
          · obtain ⟨halted, progressed, noCode, closed⟩ := step_of_endOfInput meets
            rw [progress] at progressed
            cases progressed
            refine ⟨.of_no_code closed noCode, ?_⟩
            rw [noCode]
            exact Nat.succ_pos _
          · obtain ⟨builtin, bound, exact, -, -, later⟩ := supplied.exists_builtin host code
            have performed := perform_of_running supplied.outside code bound progress
            obtain ⟨suppliedToo, rfl⟩ :=
              supplied.of_performed code bound exact meets later performed
            exact ⟨suppliedToo, Nat.lt_succ_self _⟩
      | int | hex | str | list | dict =>
          rw [step_of_literal (by simp) code] at progress
          cases progress
          have literal := supplied.deep_cons code rfl rfl Effect.nonneg_literal
          refine ⟨⟨supplied.outside, ?_, ?_⟩, Nat.lt_succ_self _⟩
          · intro name member
            exact supplied.words name (code ▸ List.mem_cons_of_mem _ member)
          · refine literal.2 _ ⟨literal.1, ?_⟩
            simp [Effect.literal]

/-- A run does the same whatever lies below the data. -/
theorem run_upon
    (supplied : machine.Supplied)
    (host : Host σ)
    (rest : List Word)
    (steps : Nat) :
    run host steps (machine.upon rest) =
      (run host steps machine).map (Action.mapFinal (Machine.upon rest)) := by
  induction steps generalizing machine with
  | zero => rfl
  | succ steps inductionHypothesis =>
      have same := supplied.step_upon host rest
      cases progress : machine.step host with
      | running next =>
          rw [progress] at same
          rw [run_of_running progress, run_of_running same]
          exact inductionHypothesis (supplied.step progress).1
      | ended outcome =>
          rw [progress] at same
          rw [run_of_ended progress, run_of_ended same]
          rfl

theorem ne_underflow_of_run
    {steps : Nat}
    {failed : Machine σ}
    (supplied : machine.Supplied) :
    run host steps machine ≠ some (.error (.eval .stackUnderflow) failed) := by
  induction steps generalizing machine with
  | zero => rintro ⟨⟩
  | succ steps inductionHypothesis =>
      cases progress : machine.step host with
      | running next =>
          rw [run_of_running progress]
          exact inductionHypothesis (supplied.step progress).1
      | ended outcome =>
          rw [run_of_ended progress]
          rintro ⟨⟩
          exact supplied.ne_underflow host progress

/-- A run takes at most one step for each word of the code, and one to find that there is none
left. -/
theorem exists_outcome
    {count : Nat}
    (supplied : machine.Supplied)
    (short : machine.code.length ≤ count) :
    ∃ outcome, run host (count + 1) machine = some outcome := by
  induction count generalizing machine with
  | zero =>
      have noCode : machine.code = [] := List.length_eq_zero_iff.mp (Nat.le_zero.mp short)
      exact ⟨_, run_of_ended (step_of_no_code noCode) 0⟩
  | succ count inductionHypothesis =>
      cases progress : machine.step host with
      | running next =>
          obtain ⟨suppliedToo, less⟩ := supplied.step progress
          rw [run_of_running progress]
          exact inductionHypothesis suppliedToo (by omega)
      | ended outcome => exact ⟨outcome, run_of_ended progress _⟩

end Supplied

/-- Without indices, the inferred effect tells how much of the data stack code can see. Take a
machine outside all regions whose code is a body of words that stand for themselves and of built-in
words with exact effects, `pick` and `roll` apart, and whose data stack is as deep as the effect
inferred for the body takes, or deeper. Then its run comes to an end, which is not a complaint that
words are missing. With any words below the data the run has the same end: the same faults, the same
calls to the host and the same machine, with these words unchanged at the bottom of its data
stack. -/
theorem run_sees_inferred_input_only
    {body : List Word}
    (outside : machine.recovery = [])
    (code : machine.code = body.reverse)
    (words : ∀ name, .atom name ∈ body →
      ∃ builtin, machine.dictionary.get? name = some (.primitive builtin) ∧
        builtin.effect.exact = true ∧ builtin ≠ .pick ∧ builtin ≠ .roll)
    (deep : (machine.dictionary.infer body).input ≤ machine.data.length)
    (rest : List Word) :
    ∃ steps outcome,
      run host steps machine = some outcome ∧
      run host steps (machine.upon rest) =
        some (Action.mapFinal (Machine.upon rest) outcome) ∧
      ∀ failed, outcome ≠ .error (.eval .stackUnderflow) failed := by
  have supplied : machine.Supplied := by
    refine ⟨outside, ?_, ?_⟩
    · intro name member
      rw [code, List.mem_reverse] at member
      exact words name member
    · rw [code]
      exact deep
  obtain ⟨outcome, finished⟩ := supplied.exists_outcome (Nat.le_refl _)
  refine ⟨_, outcome, finished, ?_, ?_⟩
  · rw [supplied.run_upon, finished]
    rfl
  · rintro failed rfl
    exact supplied.ne_underflow_of_run finished

/-- The code `/ 7 echo` takes two words. On the words `"hi"` and `0` it shows the one and fails on
the other, and a third word below is left alone. -/
theorem run_sees_inferred_input_only_dividing :
    let body : List Word := [.atom "/", .int 7, .atom "echo"]
    let machine : Machine Answer :=
      { Library.bare false {} with data := [.str "hi", .int 0], code := body.reverse }
    machine.dictionary.infer body = ⟨2, 1, true⟩ ∧
      ∃ steps failed,
        run Answer.host steps (machine.upon [.int 9]) = some (.error (.eval .divideByZero) failed) ∧
        failed.data = [.int 7, .int 0, .int 9] ∧
        failed.log = [.echo "hi"] := by
  intro body machine
  have words : ∀ name, .atom name ∈ body →
      ∃ builtin, machine.dictionary.get? name = some (.primitive builtin) ∧
        builtin.effect.exact = true ∧ builtin ≠ .pick ∧ builtin ≠ .roll := by
    intro name member
    simp only [body, List.mem_cons, Word.atom.injEq, reduceCtorEq, List.not_mem_nil, or_false,
      false_or] at member
    rcases member with rfl | rfl <;> exact ⟨_, rfl, rfl, by decide, by decide⟩
  obtain ⟨steps, outcome, alone, whole, -⟩ :=
    run_sees_inferred_input_only rfl rfl words (by decide) [.int 9]
  have ends : run Answer.host 3 machine = some (.error (.eval .divideByZero) _) := rfl
  cases run_unique ends alone
  exact ⟨by decide, steps, _, whole, rfl, rfl⟩

end Machine
end Concatenative
