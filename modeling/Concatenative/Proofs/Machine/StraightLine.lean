import Concatenative.Proofs.Library
import Concatenative.Proofs.Machine.Depth
import Concatenative.Proofs.Machine.Failure
import Concatenative.Proofs.Machine.Powers

/-!
# Straight-line code

Code is straight-line if all its words have exact effects. It cannot loop, and the effect that is
inferred for it is sound: a run that gets through it has found as many words on the data stack as
the effect takes, and has left as many as the effect leaves. Otherwise the run fails, or it asks for
a line at the end of the input.
-/

namespace Concatenative
namespace Machine

variable {σ : Type} {host : Host σ} {machine next : Machine σ}
variable {name : String} {effect : Effect} {code rest : List Word}

/-! ## Getting through a piece of code -/

/-- What becomes of a machine that executes code of an effect above other code. -/
inductive Passes (host : Host σ) (effect : Effect) (rest : List Word) (machine : Machine σ) :
    Prop where
  /-- The run fails. -/
  | fails {steps : Nat} {fault : Fault} {failed : Machine σ}
      (ended : run host steps machine = some (.error fault failed)) :
      Passes host effect rest machine
  /-- The run asks for a line at the end of the input. -/
  | halts {steps : Nat} {state : Machine σ}
      (advances : Advances host steps machine state)
      (meets : state.MeetsEndOfInput host) :
      Passes host effect rest machine
  /-- The run gets to the other code. -/
  | arrives {steps : Nat} {after : Machine σ}
      (advances : Advances host steps machine after)
      (code : after.code = rest)
      (dictionary : after.dictionary = machine.dictionary)
      (unprotected : after.recovery = [])
      (fits : effect.Fits machine.data.length after.data.length) :
      Passes host effect rest machine

/-- Passing may begin with some steps. -/
theorem Passes.after
    {whole : Effect}
    {steps : Nat}
    (advances : Advances host steps machine next)
    (dictionary : next.dictionary = machine.dictionary)
    (fits : ∀ depth,
      effect.Fits next.data.length depth → whole.Fits machine.data.length depth)
    (passes : next.Passes host effect rest) :
    machine.Passes host whole rest := by
  cases passes with
  | fails ended =>
      rw [← advances.run_eq] at ended
      exact .fails ended
  | halts later meets => exact .halts (advances.trans later) meets
  | arrives later code same unprotected fitting =>
      exact .arrives (advances.trans later) code (same.trans dictionary) unprotected
        (fits _ fitting)

/-- With the words of the library and outside all regions, a machine passes through a piece of code
with an effect, whatever code is below. -/
def Conducts (host : Host σ) (effect : Effect) (code : List Word) : Prop :=
  ∀ (rest : List Word) (machine : Machine σ),
    machine.dictionary = Library.dictionary →
    machine.recovery = [] →
    machine.code = code ++ rest →
    machine.Passes host effect rest

theorem conducts_nil (host : Host σ) : Conducts host .neutral [] := by
  intro rest machine _ unprotected code
  refine .arrives (.start machine) code rfl unprotected ⟨Int.natCast_nonneg _, ?_⟩
  simp [Effect.neutral]

theorem Conducts.append
    {second : Effect}
    {more : List Word}
    (earlier : Conducts host effect code)
    (later : Conducts host second more) :
    Conducts host (effect.andThen second) (code ++ more) := by
  intro rest machine dictionary unprotected whole
  rw [List.append_assoc] at whole
  cases earlier (more ++ rest) machine dictionary unprotected whole with
  | fails ended => exact .fails ended
  | halts advances meets => exact .halts advances meets
  | arrives advances code same unprotected fits =>
      refine .after advances same (fun depth => fits.andThen) ?_
      exact later rest _ (same.trans dictionary) unprotected code

/-! ## One word -/

theorem conducts_literal
    {word : Word}
    (literal : ∀ name, word ≠ .atom name) :
    Conducts host .literal [word] := by
  intro rest machine _ unprotected code
  refine .arrives (.step (step_of_literal literal code) (.start _)) rfl rfl unprotected ?_
  refine ⟨Int.natCast_nonneg _, ?_⟩
  simp [Effect.literal]

/-- A failure outside all regions ends the run. -/
theorem passes_of_failure
    {fault : Fault}
    {failed : Machine σ}
    (unprotected : machine.recovery = [])
    (code : machine.code = .atom name :: rest)
    (failure : Action.execute host name (machine.begun name rest) = .error fault failed) :
    machine.Passes host effect rest := by
  obtain ⟨final, ended⟩ := exists_ended_of_failure unprotected code failure
  exact .fails (run_of_ended ended 0)

/-- A built-in word with an exact effect works on the data stack alone if a prompt is answered. At
most it leaves a region. -/
theorem perform_keeps
    {builtin : Builtin}
    {after : Machine σ}
    (exact : builtin.effect.exact = true)
    (answered : builtin = .prompt → machine.answer? host ≠ some .endOfInput)
    (done : Action.perform host builtin machine = .ok () after) :
    after.code = machine.code ∧ after.dictionary = machine.dictionary ∧
      (machine.recovery = [] → after.recovery = []) := by
  have bound := (Action.perform_staged host builtin).bounded.of_ok done
  cases builtin with
  | prompt =>
      obtain ⟨word, below, text, world, data, rfl⟩ :=
        Action.exists_line_of_prompt (answered rfl) done
      exact ⟨rfl, rfl, fun unprotected => unprotected⟩
  | unprotect =>
      cases done
      refine ⟨rfl, rfl, fun unprotected => ?_⟩
      change machine.recovery.drop 1 = []
      rw [unprotected, List.drop_nil]
  | explode | capture | clear | bye | assign | eval | expand | branch | protect | quote | arrange =>
      cases exact
  | _ => exact ⟨bound.sameCode rfl rfl rfl, bound.dictionary rfl, (bound.recovery rfl).trans⟩

/-- A prompt is answered if the machine does not meet the end of the input. -/
theorem answered_of_not_meets
    {builtin : Builtin}
    (code : machine.code = .atom name :: rest)
    (bound : machine.dictionary.get? name = some (.primitive builtin))
    (goesOn : ¬machine.MeetsEndOfInput host) :
    builtin = .prompt → (machine.begun name rest).answer? host ≠ some .endOfInput := by
  rintro rfl ends
  refine goesOn ⟨⟨_, executing?_of_primitive code bound, rfl⟩, ?_⟩
  simpa only [answer?, data_begun, world_begun] using ends

theorem conducts_primitive
    {builtin : Builtin}
    (bound : Library.dictionary.get? name = some (.primitive builtin))
    (exact : builtin.effect.exact = true) :
    Conducts host builtin.effect [.atom name] := by
  intro rest machine dictionary unprotected code
  rw [← dictionary] at bound
  by_cases meets : machine.MeetsEndOfInput host
  · exact .halts (.start machine) meets
  cases performed : Action.perform host builtin (machine.begun name rest) with
  | error fault failed =>
      exact passes_of_failure unprotected code ((execute_of_primitive bound).trans performed)
  | ok _ after =>
      have answered := answered_of_not_meets code bound meets
      have outside : (machine.begun name rest).recovery = [] := by
        rw [recovery_begun, unprotected]
      have fits := Action.perform_hasEffect host exact _ _ _ performed
      obtain ⟨sameCode, same, stillOutside⟩ := perform_keeps exact answered performed
      rw [data_begun] at fits
      rw [code_begun] at sameCode
      rw [dictionary_begun] at same
      exact .arrives (.step (step_of_perform_ok code bound performed) (.start after)) sameCode same
        (stillOutside outside) fits

/-- A definition is refused where the data stack is not deep enough for its effect. Otherwise its
body is executed. -/
theorem conducts_definition
    {body : List Word}
    (bound : Library.dictionary.get? name = some (.defined effect (.list body)))
    (exact : effect.exact = true)
    (conducts : Conducts host effect body.reverse) :
    Conducts host effect [.atom name] := by
  intro rest machine dictionary unprotected code
  rw [← dictionary] at bound
  by_cases deep : effect.input ≤ machine.data.length
  · have progress := step_of_call host code bound fun _ => deep
    refine .after (.step progress (.start _)) dictionary_begun ?_
      (conducts rest _ (dictionary_begun.trans dictionary) (recovery_begun.trans unprotected) ?_)
    · intro depth fits
      change effect.Fits (machine.begun name rest).data.length depth at fits
      rwa [data_begun] at fits
    · change body.reverse ++ (machine.begun name rest).code = _
      rw [code_begun]
  · have shallow : (machine.begun name rest).data.length < effect.input := by
      rw [data_begun]
      exact Int.not_le.mp deep
    have refused := Action.call_of_shallow (.list body) exact shallow
    exact passes_of_failure unprotected code ((execute_of_defined bound).trans refused)

/-! ## Inferred effects -/

/-- A word has an exact effect, and a machine passes through it with that effect. -/
def Sound (host : Host σ) (word : Word) : Prop :=
  ∃ effect,
    Library.dictionary.effectOf? word = some effect ∧ effect.exact = true ∧
      Conducts host effect [word]

/-- The effect that is inferred for code is sound if all words are sound. -/
theorem conducts_inferFrom
    {words : List Word}
    (sound : ∀ word ∈ words, Sound host word)
    (exact : effect.exact = true)
    (conducts : Conducts host effect code) :
    (Library.dictionary.inferFrom effect words).exact = true ∧
      Conducts host (Library.dictionary.inferFrom effect words) (code ++ words) := by
  induction words generalizing effect code with
  | nil =>
      rw [List.append_nil]
      exact ⟨exact, conducts⟩
  | cons word later inductionHypothesis =>
      rw [List.forall_mem_cons] at sound
      obtain ⟨⟨second, found, secondExact, secondConducts⟩, laterSound⟩ := sound
      have bothExact : (effect.andThen second).exact = true := by
        unfold Effect.andThen
        split <;> simp [exact, secondExact]
      have both := inductionHypothesis laterSound bothExact (conducts.append secondConducts)
      rw [List.append_assoc, List.singleton_append] at both
      simpa only [Dictionary.inferFrom, found, bothExact, if_true] using both

theorem conducts_infer
    {body : List Word}
    (sound : ∀ word ∈ body, Sound host word) :
    (Library.dictionary.infer body).exact = true ∧
      Conducts host (Library.dictionary.infer body) body.reverse := by
  refine conducts_inferFrom ?_ rfl (conducts_nil host)
  intro word member
  exact sound word (List.mem_reverse.mp member)

/-! ## The words of the library -/

theorem sound_literal
    {word : Word}
    (literal : ∀ name, word ≠ .atom name) :
    Sound host word := by
  exact ⟨.literal, Library.dictionary.effectOf?_of_literal literal, rfl, conducts_literal literal⟩

theorem sound_primitive
    {builtin : Builtin}
    (bound : Library.dictionary.get? name = some (.primitive builtin))
    (exact : builtin.effect.exact = true) :
    Sound host (.atom name) := by
  refine ⟨builtin.effect, ?_, exact, conducts_primitive bound exact⟩
  rw [Dictionary.effectOf?, bound]
  rfl

theorem sound_definition
    {body : List Word}
    (bound : Library.dictionary.get? name = some (.defined effect (.list body)))
    (inferred : Library.dictionary.infer body = effect)
    (sound : ∀ word ∈ body, Sound host word) :
    Sound host (.atom name) := by
  obtain ⟨exact, conducts⟩ := conducts_infer sound
  rw [inferred] at exact conducts
  refine ⟨effect, ?_, exact, conducts_definition bound exact conducts⟩
  rw [Dictionary.effectOf?, bound]
  rfl

theorem sound_pair
    {first second : Word}
    (firstSound : Sound host first)
    (secondSound : Sound host second) :
    ∀ word ∈ [first, second], Sound host word := by
  rw [List.forall_mem_cons, List.forall_mem_singleton]
  exact ⟨firstSound, secondSound⟩

/-- A definition that supplies a built-in word with an operand is sound. -/
theorem sound_supplied
    {builtin : Builtin}
    {verb : String}
    {operand : Word}
    (bound : Library.dictionary.get? name = some (.defined effect (.list [.atom verb, operand])))
    (inferred : Library.dictionary.infer [.atom verb, operand] = effect)
    (verbBound : Library.dictionary.get? verb = some (.primitive builtin))
    (exact : builtin.effect.exact = true)
    (literal : ∀ name, operand ≠ .atom name) :
    Sound host (.atom name) :=
  sound_definition bound inferred
    (sound_pair (sound_primitive verbBound exact) (sound_literal literal))

theorem sound_swap : Sound host (.atom "swap") :=
  sound_supplied rfl rfl rfl rfl (by simp)

/-- The definitions of the library with an exact effect are sound. -/
theorem sound_of_mem_definitions
    {word : Word}
    (member : (name, effect, word) ∈ Library.definitions)
    (exact : effect.exact = true) :
    Sound host (.atom name) := by
  simp only [Library.definitions, List.mem_cons, Prod.mk.injEq, List.not_mem_nil, or_false]
    at member
  rcases member with
    ⟨rfl, -⟩ | ⟨rfl, -⟩ | ⟨rfl, -⟩ | ⟨rfl, -⟩ | ⟨rfl, -⟩ | ⟨rfl, -⟩ |
    ⟨-, rfl, -⟩ | ⟨-, rfl, -⟩ | ⟨-, rfl, -⟩ | ⟨-, rfl, -⟩ | ⟨-, rfl, -⟩ | ⟨-, rfl, -⟩
  · exact sound_supplied rfl rfl rfl rfl (by simp)
  · exact sound_supplied rfl rfl rfl rfl (by simp)
  · exact sound_swap
  · exact sound_supplied rfl rfl rfl rfl (by simp)
  · exact sound_definition rfl rfl (sound_pair (sound_primitive rfl rfl) sound_swap)
  · exact sound_supplied rfl rfl rfl rfl (by simp)
  all_goals cases exact

/-- An atom with an exact effect is sound, and so is every word that stands for itself. -/
theorem sound_of_exact
    (word : Word)
    (exact : ∀ name, word = .atom name →
      ∃ binding, Library.dictionary.get? name = some binding ∧ binding.effect.exact = true) :
    Sound host word := by
  cases word with
  | int | hex | str | list | dict => exact sound_literal (by simp)
  | atom name =>
      obtain ⟨binding, found, exact⟩ := exact name rfl
      cases binding with
      | primitive builtin => exact sound_primitive found exact
      | defined effect word =>
          exact sound_of_mem_definitions (Library.mem_definitions_of_get? found) exact

/-! ## Whole runs -/

/-- A machine that passes through its whole code comes to an end. The end is a failure, or it is
brought about by the end of the input, or the depth of the data stack is as the effect says. -/
theorem Passes.exists_outcome
    (passes : machine.Passes host effect []) :
    ∃ steps outcome,
      run host steps machine = some outcome ∧
        ((∃ fault failed, outcome = .error fault failed) ∨
          (∃ count state, Advances host count machine state ∧ state.MeetsEndOfInput host) ∨
          ∃ final, outcome = .ok () final ∧
            effect.Fits machine.data.length final.data.length) := by
  cases passes with
  | fails ended => exact ⟨_, _, ended, .inl ⟨_, _, rfl⟩⟩
  | halts advances meets =>
      obtain ⟨next, progress, noCode, -⟩ := step_of_endOfInput meets
      have whole := advances.trans (.step progress (.start next))
      exact ⟨_, _, whole.run_eq_ended (step_of_no_code noCode), .inr (.inl ⟨_, _, advances, meets⟩)⟩
  | arrives advances noCode _ _ fits =>
      exact ⟨_, _, advances.run_eq_ended (step_of_no_code noCode), .inr (.inr ⟨_, rfl, fits⟩)⟩

/-- Exact effects are sound for straight-line code. If every atom of a body has an exact effect in
the dictionary with which machines begin, then so has the body. A run of the body outside all
regions terminates, and if it ends normally and without a prompt at the end of the input, then the
data stack was deep enough for the effect and its depth has changed as the effect says. So on a data
stack that is not deep enough the run fails or meets the end of the input. -/
theorem straight_line_sound
    {tracing : Bool}
    {world : σ}
    {body : List Word}
    (straight : ∀ name, .atom name ∈ body →
      ∃ binding, (Library.fresh host tracing world).dictionary.get? name = some binding ∧
        binding.effect.exact = true) :
    let effect := (Library.fresh host tracing world).dictionary.infer body
    effect.exact = true ∧
      ∀ machine : Machine σ,
        machine.dictionary = (Library.fresh host tracing world).dictionary →
        machine.recovery = [] →
        machine.code = body.reverse →
        (∃ steps outcome, run host steps machine = some outcome) ∧
        (∀ steps final,
          run host steps machine = some (.ok () final) →
          machine.Throughout host (fun state => ¬state.MeetsEndOfInput host) →
          effect.input ≤ machine.data.length ∧
            final.data.length = machine.data.length - effect.input + effect.output) ∧
        (machine.data.length < effect.input →
          ∀ steps outcome,
            run host steps machine = some outcome →
            (∃ fault failed, outcome = .error fault failed) ∨
              ∃ count state, Advances host count machine state ∧ state.MeetsEndOfInput host) := by
  rw [Library.dictionary_fresh] at straight ⊢
  intro effect
  have sound : ∀ word ∈ body, Sound host word := by
    intro word member
    refine sound_of_exact word ?_
    rintro name rfl
    exact straight name member
  obtain ⟨exact, conducts⟩ := conducts_infer sound
  refine ⟨exact, ?_⟩
  intro machine dictionary unprotected code
  rw [← List.append_nil body.reverse] at code
  obtain ⟨steps, outcome, finished, result⟩ :=
    (conducts [] machine dictionary unprotected code).exists_outcome
  refine ⟨⟨steps, outcome, finished⟩, ?_, ?_⟩
  · intro more final ended answered
    cases run_unique finished ended
    rcases result with ⟨fault, failed, ⟨⟩⟩ | ⟨count, state, advances, meets⟩ | ⟨_, ⟨⟩, fits⟩
    · exact absurd meets (answered count state advances)
    · exact fits
  · intro shallow more other ended
    cases run_unique finished ended
    rcases result with failure | halts | ⟨final, -, fits⟩
    · exact .inl failure
    · exact .inr halts
    · exact absurd fits.1 (Int.not_le.mpr shallow)

/-- The code `strcat over prompt` takes one word and leaves one on a host that always has a line. -/
theorem straight_line_sound_over :
    let host : Host Unit :=
      { echo := fun _ world => world
        prompt := fun _ world => (.line "a", world)
        load := fun _ world => (.ok "", world)
        command := fun _ _ world => (.ok "", world) }
    let body : List Word := [.atom "strcat", .atom "over", .atom "prompt"]
    let machine : Machine Unit :=
      { Library.bare false () with
        dictionary := Library.dictionary
        data := [.str "> ", .int 7]
        code := body.reverse }
    machine.dictionary = (Library.fresh host false ()).dictionary ∧
      (Library.fresh host false ()).dictionary.infer body = ⟨1, 1, true⟩ ∧
      ∃ steps final,
        run host steps machine = some (.ok () final) ∧
          (final.data.length : Int) = 2 - 1 + 1 := by
  intro host body machine
  have dictionary := Library.dictionary_fresh host false ()
  have straight : ∀ name, .atom name ∈ body →
      ∃ binding, (Library.fresh host false ()).dictionary.get? name = some binding ∧
        binding.effect.exact = true := by
    rw [dictionary]
    intro name member
    simp only [body, List.mem_cons, Word.atom.injEq, List.not_mem_nil, or_false] at member
    rcases member with rfl | rfl | rfl <;> exact ⟨_, rfl, rfl⟩
  have inferred : (Library.fresh host false ()).dictionary.infer body = ⟨1, 1, true⟩ := by
    rw [dictionary]
    rfl
  have answered : machine.Throughout host fun state => ¬state.MeetsEndOfInput host := by
    rintro steps state advances ⟨-, answer⟩
    obtain ⟨word, -, ⟨⟩⟩ := Option.map_eq_some_iff.mp answer
  have fits := ((straight_line_sound straight).2 machine dictionary.symm rfl rfl).2.1
  rw [inferred] at fits
  exact ⟨dictionary.symm, inferred, 6, _, rfl, (fits 6 _ rfl answered).2⟩

end Machine
end Concatenative
