import Concatenative.Proofs.Machine.Frame
import Concatenative.Proofs.Machine.Reachability
import Concatenative.Proofs.Machine.StraightLine

/-!
# What stored effects promise

A definition is stored with the effect that was inferred when it was made. An exact effect promises
how the definition changes the depth of the data stack, and how deep the data stack must be for it.
The promise is kept as long as the effect is current, which is to say that it is still the one that
would be inferred: names that are bound anew can make it outdated. It has nothing to say about the
entries that `pick` and `roll` address.
-/

namespace Concatenative

/-- The effect of a binding is what would be inferred for it now. An atom that stands for other code
is left out: the effect that is stored with it is that of a word that stands for itself. -/
def Binding.Current (dictionary : Dictionary) : Binding → Prop
  | .defined effect (.list body) => dictionary.infer body = effect
  | .defined _ (.atom _) => False
  | _ => True

instance (dictionary : Dictionary) (binding : Binding) : Decidable (binding.Current dictionary) :=
  match binding with
  | .defined _ (.list _) => inferInstanceAs (Decidable (_ = _))
  | .defined _ (.atom _) => inferInstanceAs (Decidable False)
  | .primitive _ => inferInstanceAs (Decidable True)
  | .defined _ (.int _) => inferInstanceAs (Decidable True)
  | .defined _ (.hex _) => inferInstanceAs (Decidable True)
  | .defined _ (.str _) => inferInstanceAs (Decidable True)
  | .defined _ (.dict _) => inferInstanceAs (Decidable True)

theorem Binding.Current.ne_atom
    {dictionary : Dictionary}
    {effect : Effect}
    {word : Word}
    (current : (Binding.defined effect word).Current dictionary) :
    ∀ name, word ≠ .atom name := by
  rintro name rfl
  exact current

namespace Library

theorem measured_dictionary : dictionary.Measured := by
  intro name binding found
  cases binding with
  | primitive builtin =>
      refine ⟨Effect.nonneg_builtin builtin, ?_⟩
      rintro _ _ ⟨⟩
  | defined effect word =>
      have all : ∀ definition ∈ definitions,
          definition.2.1.Nonneg ∧ definition.2.2.isList = true := by decide +kernel
      obtain ⟨nonneg, list⟩ := all _ (mem_definitions_of_get? found)
      refine ⟨nonneg, ?_⟩
      rintro _ _ ⟨⟩ noList
      rw [list] at noList
      cases noList

theorem upToDate_dictionary : dictionary.UpToDate := by
  intro name effect body found exact
  have all : ∀ definition ∈ definitions, definition.2.1.exact = true →
      dictionary.effectOfDefinition definition.2.2 = definition.2.1 := by decide +kernel
  exact all _ (mem_definitions_of_get? found) exact

end Library

/-- A definition is not refused where the data stack is deep enough for its effect. -/
theorem Action.exists_ok_of_call
    {σ : Type}
    {before : Machine σ}
    {effect : Effect}
    (word : Word)
    (deep : effect.exact = true → effect.input ≤ before.data.length) :
    ∃ after, call effect word before = .ok () after := by
  cases word with
  | list body => exact ⟨_, call_of_deep body deep⟩
  | atom | int | hex | str | dict => exact ⟨_, call_of_other rfl deep⟩

namespace Machine

variable {σ : Type} {host : Host σ} {machine before next after origin : Machine σ}
variable {phase : Phase} {past : List (Machine σ)}

/-! ## Stored effects of reachable machines -/

theorem Reached.measured (reached : Reached host phase past machine) :
    machine.dictionary.Measured := by
  refine (reached.hasDictionaries Library.measured_dictionary ?_).current
  rintro state - following measured ⟨name, -, word, rfl⟩
  exact measured.put name word

/-- The next step sets a name that is already bound. -/
def Rebinds (machine : Machine σ) : Prop :=
  ∃ name ∈ machine.setting?, (machine.dictionary.get? name).isSome = true

instance (machine : Machine σ) : Decidable machine.Rebinds :=
  inferInstanceAs (Decidable (∃ _ ∈ machine.setting?, _))

/-- Exact effects stay current if no name is bound twice. -/
theorem Reached.upToDate
    (reached : Reached host phase past machine)
    (once : ∀ state ∈ past, ¬state.Rebinds) :
    machine.dictionary.UpToDate := by
  refine (reached.hasDictionaries Library.upToDate_dictionary ?_).current
  rintro state present following upToDate ⟨name, setting, word, rfl⟩
  have unbound : state.dictionary.get? name = none := by
    rw [← Option.not_isSome_iff_eq_none]
    exact fun bound => once state present ⟨name, setting, bound⟩
  exact upToDate.put unbound word

/-! ## Executing a definition -/

/-- The failure of the program in the next step, if it fails. -/
def failure? (host : Host σ) (machine : Machine σ) : Option EvalError :=
  match machine.code with
  | .atom name :: rest =>
    match Action.execute host name (machine.begun name rest) with
    | .error (.eval error) _ => some error
    | _ => none
  | _ => none

theorem failure?_of_error
    {name : String}
    {rest : List Word}
    {error : EvalError}
    {failed : Machine σ}
    (code : machine.code = .atom name :: rest)
    (failure : Action.execute host name (machine.begun name rest) = .error (.eval error) failed) :
    machine.failure? host = some error := by
  simp only [failure?, code, failure]

theorem exists_error_of_failure?
    {error : EvalError}
    (fails : machine.failure? host = some error) :
    ∃ name rest failed,
      machine.code = .atom name :: rest ∧
        Action.execute host name (machine.begun name rest) = .error (.eval error) failed := by
  unfold failure? at fails
  split at fails
  · rename_i name rest code
    split at fails
    · rename_i cause failed failure
      cases fails
      exact ⟨name, rest, failed, code, failure⟩
    · cases fails
  · cases fails

/-- What the name means that is executed next. -/
def meaning? (machine : Machine σ) : Option Binding :=
  match machine.code with
  | .atom name :: _ => machine.dictionary.get? name
  | _ => none

/-- The name that is executed next has a current effect. -/
def Current (machine : Machine σ) : Prop :=
  ∀ binding ∈ machine.meaning?, binding.Current machine.dictionary

instance (machine : Machine σ) : Decidable machine.Current :=
  inferInstanceAs (Decidable (∀ _ ∈ machine.meaning?, _))

theorem Current.binding
    {name : String}
    {rest : List Word}
    {binding : Binding}
    (current : machine.Current)
    (code : machine.code = .atom name :: rest)
    (bound : machine.dictionary.get? name = some binding) :
    binding.Current machine.dictionary := by
  refine current binding ?_
  simp only [meaning?, code, bound, Option.mem_def]

/-- A machine works its way down to some code: no step fails or halts the machine, and the states
in which it takes steps all have a property. -/
inductive Works (host : Host σ) (rest : List Word) (property : Machine σ → Prop) :
    Machine σ → Machine σ → Prop where
  | start (machine : Machine σ) : Works host rest property machine machine
  | step {before next after : Machine σ}
      (busy : before.code ≠ rest)
      (succeeds : before.failure? host = none)
      (goesOn : ¬before.Halts host)
      (holds : property before)
      (progress : before.step host = .running next)
      (later : Works host rest property next after) :
      Works host rest property before after

/-- A machine that began with data of a depth is underway with code of an effect, above other code.
The depth has changed by what is done, and what is pending completes the effect. -/
structure Underway (whole : Effect) (depth : Nat) (rest : List Word) (done : Effect)
    (pending : List Word) (machine : Machine σ) : Prop where
  /-- The pending code is above the other. -/
  code : machine.code = pending ++ rest
  /-- What is done leaves a number of words. -/
  nonneg : 0 ≤ done.output
  /-- What is done has changed the depth as its effect says. -/
  fits : done.Fits depth machine.data.length
  /-- The effect of the whole is inferred from what is done and what is pending. -/
  completes : machine.dictionary.inferFrom done pending = whole

section Underway

variable {whole done : Effect} {depth : Nat} {rest pending : List Word}

/-- The next word of pending code has an exact effect, and the data stack is deep enough for it. -/
theorem Underway.exists_next
    (underway : machine.Underway whole depth rest done pending)
    (exact : whole.exact = true)
    (deep : whole.input ≤ depth)
    (busy : machine.code ≠ rest) :
    ∃ word later effect,
      machine.code = word :: (later ++ rest) ∧
      machine.dictionary.effectOf? word = some effect ∧
      done.exact = true ∧ effect.exact = true ∧
      effect.input ≤ machine.data.length ∧
      machine.dictionary.inferFrom (done.andThen effect) later = whole := by
  obtain ⟨code, nonneg, fits, completes⟩ := underway
  cases pending with
  | nil => exact absurd code busy
  | cons word later =>
      rw [← completes] at exact
      obtain ⟨effect, found, both⟩ := Dictionary.exists_effect_of_exact exact
      rw [Dictionary.inferFrom_cons found both] at completes
      have enough : (done.andThen effect).input ≤ depth := by
        apply Int.le_trans _ deep
        rw [← completes]
        apply Dictionary.input_le_inferFrom
      rw [Effect.exact_andThen, Bool.and_eq_true] at both
      exact ⟨word, later, effect, code, found, both.1, both.2, fits.enough enough, completes⟩

/-- A word is done once the depth has changed as its effect says, and the rest of the pending code
is left. -/
theorem Underway.proceed
    {effect : Effect}
    {later : List Word}
    (underway : before.Underway whole depth rest done pending)
    (nonneg : 0 ≤ effect.output)
    (completes : before.dictionary.inferFrom (done.andThen effect) later = whole)
    (code : next.code = later ++ rest)
    (dictionary : next.dictionary = before.dictionary)
    (fits : effect.Fits before.data.length next.data.length) :
    next.Underway whole depth rest (done.andThen effect) later where
  code := code
  nonneg := by
    rw [Effect.andThen_eq]
    dsimp only
    omega
  fits := underway.fits.andThen fits
  completes := by rw [dictionary, completes]

/-- A definition that is not refused puts its body in its own place, and other code of the same
effect is pending. -/
theorem Underway.call
    {name : String}
    {effect : Effect}
    {word : Word}
    {later : List Word}
    (underway : before.Underway whole depth rest done pending)
    (measured : before.dictionary.Measured)
    (current : before.Current)
    (code : before.code = .atom name :: (later ++ rest))
    (bound : before.dictionary.get? name = some (.defined effect word))
    (doneExact : done.exact = true)
    (effectExact : effect.exact = true)
    (deep : effect.input ≤ before.data.length)
    (completes : before.dictionary.inferFrom (done.andThen effect) later = whole)
    (called : Action.call effect word (before.begun name (later ++ rest)) = .ok () next) :
    next.dictionary = before.dictionary ∧
      ∃ pending, next.Underway whole depth rest done pending := by
  have stored := current.binding code bound
  have enough : effect.exact = true →
      effect.input ≤ (before.begun name (later ++ rest)).data.length := by
    rw [data_begun]
    exact fun _ => deep
  have same : ∀ change : Stacks → Stacks,
      ((before.begun name (later ++ rest)).mapStacks change).dictionary = before.dictionary :=
    fun _ => dictionary_begun
  have fits : done.Fits depth (before.begun name (later ++ rest)).data.length := by
    rw [data_begun]
    exact underway.fits
  cases list : word.isList with
  | true =>
      obtain ⟨body, rfl⟩ := Word.exists_items_of_isList list
      rw [Action.call_of_deep body enough] at called
      cases called
      refine ⟨same _, body.reverse ++ later, ?_, underway.nonneg, fits, ?_⟩
      · change body.reverse ++ (before.begun name (later ++ rest)).code = _
        rw [code_begun, List.append_assoc]
      · have inferred : before.dictionary.infer body = effect := stored
        rw [← inferred] at effectExact completes
        rw [same, Dictionary.inferFrom_body doneExact underway.nonneg effectExact, completes]
  | false =>
      -- The word itself is pending, and its effect is the one that was stored.
      rw [Action.call_of_other list enough] at called
      cases called
      have literal := (measured name _ bound).2 effect word rfl list
      subst literal
      have found := before.dictionary.effectOf?_of_literal stored.ne_atom
      have both : (done.andThen .literal).exact = true := by
        rw [Effect.exact_andThen, doneExact, effectExact, Bool.and_self]
      refine ⟨same _, word :: later, ?_, underway.nonneg, fits, ?_⟩
      · change word :: (before.begun name (later ++ rest)).code = _
        rw [code_begun, List.cons_append]
      · rw [same, Dictionary.inferFrom_cons found both, completes]

/-- A step that neither fails nor halts goes on with pending code, if what it executes has a current
effect. -/
theorem Underway.step
    (underway : before.Underway whole depth rest done pending)
    (measured : before.dictionary.Measured)
    (exact : whole.exact = true)
    (deep : whole.input ≤ depth)
    (busy : before.code ≠ rest)
    (succeeds : before.failure? host = none)
    (goesOn : ¬before.Halts host)
    (current : before.Current)
    (progress : before.step host = .running next) :
    next.dictionary = before.dictionary ∧
      ∃ done pending, next.Underway whole depth rest done pending := by
  obtain ⟨word, later, effect, code, found, doneExact, effectExact, enough, completes⟩ :=
    underway.exists_next exact deep busy
  have nonneg := (measured.nonneg.of_effectOf? found).output
  have takes := step_takes host before
  rw [progress] at takes
  cases takes with
  | shifted literal below noAtom shiftedCode =>
      cases code.symm.trans shiftedCode
      rw [Dictionary.effectOf?_of_literal _ noAtom] at found
      cases found
      refine ⟨rfl, _, _, underway.proceed nonneg completes rfl rfl ⟨enough, ?_⟩⟩
      simp [Effect.literal]
  | recovered name below error failed snapshot outer failedCode failure regions =>
      rw [failure?_of_error failedCode failure] at succeeds
      cases succeeds
  | executed name below after executedCode performed =>
      cases code.symm.trans executedCode
      obtain ⟨binding, bound, rfl⟩ := Option.map_eq_some_iff.mp found
      cases binding with
      | primitive builtin =>
          rw [execute_of_primitive bound] at performed
          have answered := answered_of_not_meets executedCode bound fun meets => goesOn (.inr meets)
          have fits := Action.perform_hasEffect host effectExact _ _ _ performed
          obtain ⟨sameCode, same, -⟩ := perform_keeps effectExact answered performed
          rw [data_begun] at fits
          rw [code_begun] at sameCode
          rw [dictionary_begun] at same
          exact ⟨same, _, _, underway.proceed nonneg completes sameCode same fits⟩
      | defined effect word =>
          rw [execute_of_defined bound] at performed
          obtain ⟨same, pending, further⟩ :=
            underway.call measured current executedCode bound doneExact effectExact enough completes
              performed
          exact ⟨same, done, pending, further⟩

/-- A machine that works its way down to the other code, with current effects all along, stays
underway. -/
theorem Works.underway
    (works : Works host rest Current machine after)
    (underway : machine.Underway whole depth rest done pending)
    (measured : machine.dictionary.Measured)
    (exact : whole.exact = true)
    (deep : whole.input ≤ depth) :
    ∃ done pending, after.Underway whole depth rest done pending := by
  induction works generalizing done pending with
  | start machine => exact ⟨done, pending, underway⟩
  | step busy succeeds goesOn current progress later inductionHypothesis =>
      obtain ⟨same, done, pending, further⟩ :=
        underway.step measured exact deep busy succeeds goesOn current progress
      rw [← same] at measured
      exact inductionHypothesis further measured

/-- A machine that is about to execute a name is underway with the effect of the name. -/
theorem underway_of_name
    {name : String}
    {binding : Binding}
    (code : machine.code = .atom name :: rest)
    (bound : machine.dictionary.get? name = some binding)
    (measured : machine.dictionary.Measured)
    (exact : binding.effect.exact = true) :
    machine.Underway binding.effect machine.data.length rest .neutral [.atom name] := by
  have same := Effect.neutral_andThen (measured name binding bound).1.input
  refine ⟨code, Int.le_refl 0, ⟨Int.natCast_nonneg _, ?_⟩, ?_⟩
  · simp [Effect.neutral]
  · have found : machine.dictionary.effectOf? (.atom name) = some binding.effect := by
      rw [Dictionary.effectOf?, bound]
      rfl
    rw [Dictionary.inferFrom_cons found (by rw [same, exact]), same]
    rfl

/-- The effect of the whole is done when only the other code is left. -/
theorem Underway.fits_of_code_eq
    (underway : machine.Underway whole depth rest done pending)
    (arrived : machine.code = rest) :
    whole.Fits depth machine.data.length := by
  obtain ⟨code, -, fits, completes⟩ := underway
  rw [arrived, List.self_eq_append_left] at code
  subst code
  rw [← completes]
  exact fits

end Underway

/-! ## The promises -/

/-- Stored effects that are exact tell the truth while they are current. Take a definition with an
exact effect in a state that a fresh machine has come to by evaluating sources, and any machine with
the same dictionary that is about to execute the definition over some other code, with data deep
enough for the effect. If the machine works its way down to the other code, and executes only names
with current effects on the way, then the depth of the data stack has changed as the effect says.
And exact effects are all current if no name was bound twice. -/
theorem exact_effect_holds
    (reached : Reached host phase past origin) :
    (∀ (machine after : Machine σ) (name : String) (effect : Effect) (word : Word)
        (rest : List Word),
      origin.dictionary.get? name = some (.defined effect word) →
      effect.exact = true →
      machine.dictionary = origin.dictionary →
      machine.code = .atom name :: rest →
      effect.input ≤ machine.data.length →
      Works host rest Current machine after →
      after.code = rest →
      (after.data.length : Int) = machine.data.length - effect.input + effect.output) ∧
    ((∀ state ∈ past, ¬state.Rebinds) →
      ∀ name effect body, origin.dictionary.get? name = some (.defined effect (.list body)) →
        effect.exact = true → origin.dictionary.infer body = effect) := by
  refine ⟨?_, reached.upToDate⟩
  intro machine after name effect word rest bound exact dictionary code deep works arrived
  have measured := reached.measured
  rw [← dictionary] at bound measured
  have begins := underway_of_name code bound measured exact
  obtain ⟨done, pending, underway⟩ := works.underway begins measured exact deep
  exact (underway.fits_of_code_eq arrived).2

/-- The definition `sq = { * dup }` takes one word and leaves one. -/
theorem exact_effect_holds_square :
    ∃ (past : List (Machine Answer)) (origin after : Machine Answer),
      Reached Answer.host .resting past origin ∧
      (∀ state ∈ past, ¬state.Rebinds) ∧
      origin.dictionary.get? "sq" =
        some (.defined ⟨1, 1, true⟩ (.list [.atom "*", .atom "dup"])) ∧
      Works Answer.host [.int 7] Current
        { origin with data := [.int 3], code := [.atom "sq", .int 7] } after ∧
      after.code = [.int 7] ∧
      (after.data.length : Int) = 1 - 1 + 1 ∧
      origin.dictionary.infer [.atom "*", .atom "dup"] = ⟨1, 1, true⟩ := by
  have parsed : Source.parse "sq = \x7b * dup \x7d" =
      .ok [.atom "sq", .atom "=", .list [.atom "*", .atom "dup"]] := Source.parse_of_readTokens rfl
  obtain ⟨log, fresh⟩ := Reached.exists_fresh Answer.host false {}
  let begun : Machine Answer :=
    { Library.bare false {} with dictionary := Library.dictionary, log }
  let origin : Machine Answer :=
    { begun with
      dictionary := Library.dictionary.put "sq"
        (.defined ⟨1, 1, true⟩ (.list [.atom "*", .atom "dup"])) }
  have finished : begun.evaluate Answer.host 4 "sq = \x7b * dup \x7d" = some (.ok () origin) :=
    (evaluate_of_parse Answer.host 4 parsed begun).trans rfl
  obtain ⟨past, reached, once⟩ := fresh.evaluate finished (fun state => ¬state.Rebinds)
    (List.forall_mem_singleton.mpr (of_decide_eq_true rfl)) <| by
      refine throughoutEvaluation_of_parse parsed ?_
      iterate 2 refine .of_running (of_decide_eq_true rfl) rfl ?_
      exact .of_ended (of_decide_eq_true rfl) rfl
  have promise := exact_effect_holds reached
  let machine := { origin with data := [.int 3], code := [.atom "sq", .int 7] }
  have works : Works Answer.host [.int 7] Current machine _ :=
    .step (of_decide_eq_true rfl) rfl (of_decide_eq_true rfl) (of_decide_eq_true rfl) rfl <|
    .step (of_decide_eq_true rfl) rfl (of_decide_eq_true rfl) (of_decide_eq_true rfl) rfl <|
    .step (of_decide_eq_true rfl) rfl (of_decide_eq_true rfl) (of_decide_eq_true rfl) rfl <|
    .step (of_decide_eq_true rfl) rfl (of_decide_eq_true rfl) (of_decide_eq_true rfl) rfl <|
    .step (of_decide_eq_true rfl) rfl (of_decide_eq_true rfl) (of_decide_eq_true rfl) rfl <|
    .start _
  refine ⟨past, origin, _, reached, once, rfl, works, rfl, ?_, ?_⟩
  · exact promise.1 machine _ "sq" _ _ _ rfl rfl rfl rfl (Int.le_refl 1) works rfl
  · exact promise.2 once "sq" _ _ rfl rfl

/-- A name is bound with an exact effect and the data stack is deep enough for it, and yet the depth
is not what the effect says when the name has been executed. -/
def Misleads (host : Host σ) (name : String) (machine : Machine σ) : Prop :=
  ∃ effect word after,
    machine.dictionary.get? name = some (.defined effect word) ∧
    effect.exact = true ∧
    effect.input ≤ machine.data.length ∧
    Works host [] (fun _ => True) { machine with code := [.atom name] } after ∧
    after.code = [] ∧
    (after.data.length : Int) ≠ machine.data.length - effect.input + effect.output

/-- The effect of `f = { x }` misleads once `x` has been bound anew. And so does the effect of an
atom that stands for other code. -/
theorem exact_effect_misleads :
    (∃ origin : Machine Answer,
      (Library.fresh Answer.host false {}).evaluate Answer.host 10
          "x = 1\nf = \x7b x \x7d\nx = \x7b \x7d" = some (.ok () origin) ∧
      origin.Misleads Answer.host "f") ∧
    ∃ origin : Machine Answer,
      (Library.fresh Answer.host false {}).evaluate Answer.host 10
          "f = drop quote\n1" = some (.ok () origin) ∧
      origin.Misleads Answer.host "f" := by
  obtain ⟨log, begins⟩ := Library.fresh_eq Answer.host false {}
  rw [begins]
  constructor
  · have parsed : Source.parse "x = 1\nf = \x7b x \x7d\nx = \x7b \x7d" =
        .ok [.atom "x", .atom "=", .list [], .atom "f", .atom "=", .list [.atom "x"],
          .atom "x", .atom "=", .int 1] := Source.parse_of_readTokens rfl
    rw [evaluate_of_parse Answer.host 10 parsed]
    exact ⟨_, rfl, _, _, _, rfl, rfl, Int.le_refl 0,
      .step (of_decide_eq_true rfl) rfl (of_decide_eq_true rfl) trivial rfl <|
      .step (of_decide_eq_true rfl) rfl (of_decide_eq_true rfl) trivial rfl <|
      .start _, rfl, of_decide_eq_true rfl⟩
  · have parsed : Source.parse "f = drop quote\n1" =
        .ok [.int 1, .atom "f", .atom "=", .atom "drop", .atom "quote"] :=
      Source.parse_of_readTokens rfl
    rw [evaluate_of_parse Answer.host 10 parsed]
    exact ⟨_, rfl, _, _, _, rfl, rfl, of_decide_eq_true rfl,
      .step (of_decide_eq_true rfl) rfl (of_decide_eq_true rfl) trivial rfl <|
      .step (of_decide_eq_true rfl) rfl (of_decide_eq_true rfl) trivial rfl <|
      .start _, rfl, of_decide_eq_true rfl⟩

/-- The check at the call of a definition catches underflow before the definition is begun, while
effects are current and entries are not addressed by an index. Take a list that is bound with an
exact effect in a state that a fresh machine has come to by evaluating sources, and any machine with
the same dictionary that is about to execute the list over some other code, with data deep enough
for the effect. If, on its way down to the other code and with current effects so far, the machine
finds that words are missing on the data stack, then it is about to pick or roll an entry whose index
is not below the number of entries under the index. -/
theorem call_prevents_underflow
    (reached : Reached host phase past origin)
    {machine state : Machine σ}
    {name : String}
    {effect : Effect}
    {body rest : List Word}
    (bound : origin.dictionary.get? name = some (.defined effect (.list body)))
    (exact : effect.exact = true)
    (dictionary : machine.dictionary = origin.dictionary)
    (code : machine.code = .atom name :: rest)
    (deep : effect.input ≤ machine.data.length)
    (works : Works host rest Current machine state)
    (busy : state.code ≠ rest)
    (fails : state.failure? host = some .stackUnderflow) :
    ∃ builtin below word left index,
      state.executing? = some (builtin, below) ∧
      (builtin = .pick ∨ builtin = .roll) ∧
      state.data = word :: left ∧
      word.intoHex = .ok index ∧
      left.length ≤ index := by
  have measured := reached.measured
  rw [← dictionary] at bound measured
  have begins := underway_of_name code bound measured exact
  obtain ⟨done, pending, underway⟩ := works.underway begins measured exact deep
  obtain ⟨word, later, next, nextCode, found, -, nextExact, enough, -⟩ :=
    underway.exists_next exact deep busy
  obtain ⟨called, below, failed, failedCode, failure⟩ := exists_error_of_failure? fails
  cases nextCode.symm.trans failedCode
  obtain ⟨binding, meaning, rfl⟩ := Option.map_eq_some_iff.mp found
  cases binding with
  | primitive builtin =>
      rw [execute_of_primitive meaning] at failure
      have indexed := Action.indexed_of_underflow nextExact (by rwa [data_begun]) failure
      rw [data_begun] at indexed
      obtain ⟨addresses, word, left, index, data, reads, tooDeep⟩ := indexed
      exact ⟨builtin, _, word, left, index, executing?_of_primitive failedCode meaning, addresses,
        data, reads, tooDeep⟩
  | defined effect word =>
      rw [execute_of_defined meaning] at failure
      have begunDeep : effect.exact = true →
          effect.input ≤ (state.begun called (later ++ rest)).data.length := by
        rw [data_begun]
        exact fun _ => enough
      obtain ⟨loaded, done⟩ := Action.exists_ok_of_call word begunDeep
      rw [done] at failure
      cases failure

/-- The definition `third = { pick 2 }` asks for one word, and looks for a third one. -/
theorem call_prevents_underflow_third :
    ∃ (past : List (Machine Answer)) (origin state : Machine Answer),
      Reached Answer.host .resting past origin ∧
      origin.dictionary.get? "third" =
        some (.defined ⟨1, 2, true⟩ (.list [.atom "pick", .int 2])) ∧
      Works Answer.host [.int 7] Current
        { origin with data := [.str "a"], code := [.atom "third", .int 7] } state ∧
      state.failure? Answer.host = some .stackUnderflow ∧
      ∃ builtin below word left index,
        state.executing? = some (builtin, below) ∧
        (builtin = .pick ∨ builtin = .roll) ∧
        state.data = word :: left ∧
        word.intoHex = .ok index ∧
        left.length ≤ index := by
  have parsed : Source.parse "third = \x7b pick 2 \x7d" =
      .ok [.atom "third", .atom "=", .list [.atom "pick", .int 2]] := Source.parse_of_readTokens rfl
  obtain ⟨log, fresh⟩ := Reached.exists_fresh Answer.host false {}
  let begun : Machine Answer :=
    { Library.bare false {} with dictionary := Library.dictionary, log }
  let origin : Machine Answer :=
    { begun with
      dictionary := Library.dictionary.put "third"
        (.defined ⟨1, 2, true⟩ (.list [.atom "pick", .int 2])) }
  have finished : begun.evaluate Answer.host 4 "third = \x7b pick 2 \x7d" = some (.ok () origin) :=
    (evaluate_of_parse Answer.host 4 parsed begun).trans rfl
  obtain ⟨past, reached, -⟩ := fresh.evaluate finished (fun _ => True) (fun _ _ => trivial)
    (fun _ _ _ _ _ => trivial)
  let machine := { origin with data := [.str "a"], code := [.atom "third", .int 7] }
  have works : Works Answer.host [.int 7] Current machine _ :=
    .step (of_decide_eq_true rfl) rfl (of_decide_eq_true rfl) (of_decide_eq_true rfl) rfl <|
    .step (of_decide_eq_true rfl) rfl (of_decide_eq_true rfl) (of_decide_eq_true rfl) rfl <|
    .start _
  have bound : origin.dictionary.get? "third" =
      some (.defined ⟨1, 2, true⟩ (.list [.atom "pick", .int 2])) := rfl
  have same : machine.dictionary = origin.dictionary := rfl
  refine ⟨past, origin, _, reached, bound, works, rfl, ?_⟩
  exact call_prevents_underflow reached bound rfl same rfl (Int.le_refl 1) works
    (of_decide_eq_true rfl) rfl

/-- A name is bound to a list with an exact effect and the data stack is deep enough for it, and yet
words are missing before the list has been executed. -/
def FallsShort (host : Host σ) (name : String) (machine : Machine σ) : Prop :=
  ∃ effect body state,
    machine.dictionary.get? name = some (.defined effect (.list body)) ∧
    effect.exact = true ∧
    effect.input ≤ machine.data.length ∧
    Works host [] (fun _ => True) { machine with code := [.atom name] } state ∧
    state.code ≠ [] ∧
    state.failure? host = some .stackUnderflow

/-- The library's `over` falls short on a single word, since it picks the second one. The definition
`f = { drop x }` falls short once `x` has been bound anew. And so does `g = { f }` if `f` is an atom
that stands for other code. -/
theorem call_admits_underflow :
    (∃ origin : Machine Answer,
      (Library.fresh Answer.host false {}).evaluate Answer.host 10 "1" = some (.ok () origin) ∧
      origin.FallsShort Answer.host "over") ∧
    (∃ origin : Machine Answer,
      (Library.fresh Answer.host false {}).evaluate Answer.host 10
          "x = 1\nf = \x7b drop x \x7d\nx = \x7b \x7d" = some (.ok () origin) ∧
      origin.FallsShort Answer.host "f") ∧
    ∃ origin : Machine Answer,
      (Library.fresh Answer.host false {}).evaluate Answer.host 10
          "f = drop quote\ng = \x7b f \x7d" = some (.ok () origin) ∧
      origin.FallsShort Answer.host "g" := by
  obtain ⟨log, begins⟩ := Library.fresh_eq Answer.host false {}
  rw [begins]
  refine ⟨?_, ?_, ?_⟩
  · have parsed : Source.parse "1" = .ok [.int 1] := Source.parse_of_readTokens rfl
    rw [evaluate_of_parse Answer.host 10 parsed]
    exact ⟨_, rfl, _, _, _, rfl, rfl, of_decide_eq_true rfl,
      .step (of_decide_eq_true rfl) rfl (of_decide_eq_true rfl) trivial rfl <|
      .step (of_decide_eq_true rfl) rfl (of_decide_eq_true rfl) trivial rfl <|
      .start _, of_decide_eq_true rfl, rfl⟩
  · have parsed : Source.parse "x = 1\nf = \x7b drop x \x7d\nx = \x7b \x7d" =
        .ok [.atom "x", .atom "=", .list [], .atom "f", .atom "=", .list [.atom "drop", .atom "x"],
          .atom "x", .atom "=", .int 1] := Source.parse_of_readTokens rfl
    rw [evaluate_of_parse Answer.host 10 parsed]
    exact ⟨_, rfl, _, _, _, rfl, rfl, Int.le_refl 0,
      .step (of_decide_eq_true rfl) rfl (of_decide_eq_true rfl) trivial rfl <|
      .step (of_decide_eq_true rfl) rfl (of_decide_eq_true rfl) trivial rfl <|
      .start _, of_decide_eq_true rfl, rfl⟩
  · have parsed : Source.parse "f = drop quote\ng = \x7b f \x7d" =
        .ok [.atom "g", .atom "=", .list [.atom "f"], .atom "f", .atom "=", .atom "drop",
          .atom "quote"] := Source.parse_of_readTokens rfl
    rw [evaluate_of_parse Answer.host 10 parsed]
    exact ⟨_, rfl, _, _, _, rfl, rfl, Int.le_refl 0,
      .step (of_decide_eq_true rfl) rfl (of_decide_eq_true rfl) trivial rfl <|
      .step (of_decide_eq_true rfl) rfl (of_decide_eq_true rfl) trivial rfl <|
      .start _, of_decide_eq_true rfl, rfl⟩

end Machine
end Concatenative
