import Concatenative.Dictionary

/-!
# Inferred effects

Effects compose associatively, so the effect that is inferred for code can be computed piece by
piece. Where an inferred effect is exact, it depends only on the names that occur in the code, and
all of these are bound. Where it is inexact, it tells what the code takes up to the word that made
it so, and code that follows does not change it.
-/

namespace Concatenative
namespace Effect

/-- The numbers of an effect are numbers of words. -/
structure Nonneg (effect : Effect) : Prop where
  input : 0 ≤ effect.input
  output : 0 ≤ effect.output

instance (effect : Effect) : Decidable effect.Nonneg :=
  decidable_of_iff (0 ≤ effect.input ∧ 0 ≤ effect.output)
    ⟨fun ⟨input, output⟩ => ⟨input, output⟩, fun ⟨input, output⟩ => ⟨input, output⟩⟩

theorem nonneg_literal : literal.Nonneg :=
  ⟨by decide, by decide⟩

theorem nonneg_builtin (builtin : Builtin) : builtin.effect.Nonneg := by
  cases builtin <;> decide

/-- The numbers of a composed effect without a case distinction. -/
theorem andThen_eq (first second : Effect) :
    first.andThen second =
      { input := first.input + max (second.input - first.output) 0
        output := second.output + max (first.output - second.input) 0
        exact := first.exact && second.exact } := by
  unfold andThen
  split <;> simp only [mk.injEq, and_true] <;> omega

theorem Nonneg.andThen
    {first second : Effect}
    (firstNonneg : first.Nonneg)
    (secondNonneg : second.Nonneg) :
    (first.andThen second).Nonneg := by
  obtain ⟨firstInput, firstOutput⟩ := firstNonneg
  obtain ⟨secondInput, secondOutput⟩ := secondNonneg
  rw [andThen_eq]
  constructor <;> dsimp only <;> omega

@[simp] theorem exact_andThen (first second : Effect) :
    (first.andThen second).exact = (first.exact && second.exact) := by
  rw [andThen_eq]

theorem input_le_andThen (first second : Effect) :
    first.input ≤ (first.andThen second).input := by
  rw [andThen_eq]
  dsimp only
  omega

theorem andThen_assoc (first second third : Effect) :
    (first.andThen second).andThen third = first.andThen (second.andThen third) := by
  simp only [andThen_eq, mk.injEq, Bool.and_assoc, and_true]
  omega

end Effect

namespace Dictionary

theorem effectOf?_of_literal
    {word : Word}
    (dictionary : Dictionary)
    (literal : ∀ name, word ≠ .atom name) :
    dictionary.effectOf? word = some .literal := by
  cases word with
  | atom name => exact absurd rfl (literal name)
  | int | hex | str | list | dict => rfl

variable {dictionary : Dictionary} {effect next : Effect} {word : Word} {rest : List Word}

/-! ## Code with an exact effect -/

theorem inferFrom_cons
    (found : dictionary.effectOf? word = some next)
    (exact : (effect.andThen next).exact = true) :
    dictionary.inferFrom effect (word :: rest) = dictionary.inferFrom (effect.andThen next) rest := by
  simp only [inferFrom, found, exact, if_true]

/-- Code with an exact effect begins with a word of an exact effect. -/
theorem exists_effect_of_exact
    (exact : (dictionary.inferFrom effect (word :: rest)).exact = true) :
    ∃ next,
      dictionary.effectOf? word = some next ∧ (effect.andThen next).exact = true := by
  unfold inferFrom at exact
  split at exact
  · cases exact
  · rename_i next found
    refine ⟨next, found, ?_⟩
    split at exact
    · assumption
    · exact exact

theorem input_le_inferFrom (effect : Effect) (words : List Word) :
    effect.input ≤ (dictionary.inferFrom effect words).input := by
  induction words generalizing effect with
  | nil => exact Int.le_refl _
  | cons word rest inductionHypothesis =>
      unfold inferFrom
      split
      · exact Int.le_refl _
      · rename_i next found
        have further := effect.input_le_andThen next
        split
        · exact Int.le_trans further (inductionHypothesis _)
        · exact further

/-- The effect of code is inferred from the effect of its beginning. -/
theorem inferFrom_append
    {words : List Word}
    (exact : (dictionary.inferFrom effect words).exact = true)
    (more : List Word) :
    dictionary.inferFrom effect (words ++ more) =
      dictionary.inferFrom (dictionary.inferFrom effect words) more := by
  induction words generalizing effect with
  | nil => rfl
  | cons word rest inductionHypothesis =>
      obtain ⟨next, found, both⟩ := exists_effect_of_exact exact
      rw [inferFrom_cons found both] at exact ⊢
      rw [List.cons_append, inferFrom_cons found both, inductionHypothesis exact]

/-- What comes first can be left to the end. -/
theorem inferFrom_andThen
    {first : Effect}
    (firstExact : first.exact = true)
    (effect : Effect)
    (words : List Word) :
    dictionary.inferFrom (first.andThen effect) words =
      first.andThen (dictionary.inferFrom effect words) := by
  induction words generalizing effect with
  | nil => rfl
  | cons word rest inductionHypothesis =>
      unfold inferFrom
      cases dictionary.effectOf? word with
      | none => simp only [Effect.andThen_eq, Bool.and_false]
      | some next =>
          have sameExact : (first.andThen (effect.andThen next)).exact =
              (effect.andThen next).exact := by
            rw [Effect.exact_andThen, firstExact, Bool.true_and]
          simp only [Effect.andThen_assoc, sameExact]
          split
          · exact inductionHypothesis (effect.andThen next)
          · rfl

/-- The effect of code is that of its first word and then that of the rest. -/
theorem inferFrom_neutral_cons
    (found : dictionary.effectOf? word = some next)
    (exact : next.exact = true)
    (nonneg : next.Nonneg)
    (rest : List Word) :
    dictionary.inferFrom .neutral (word :: rest) =
      next.andThen (dictionary.inferFrom .neutral rest) := by
  have begins : Effect.neutral.andThen next = next := Effect.neutral_andThen nonneg.input
  have beginsExact : (Effect.neutral.andThen next).exact = true := by rw [begins, exact]
  rw [inferFrom_cons found beginsExact, begins, ← inferFrom_andThen exact,
    Effect.andThen_neutral nonneg.output]

/-- The search ends at a word that makes the effect inexact, whatever follows. -/
theorem inferFrom_append_of_inexact
    {words : List Word}
    (effectExact : effect.exact = true)
    (inexact : (dictionary.inferFrom effect words).exact = false)
    (more : List Word) :
    dictionary.inferFrom effect (words ++ more) = dictionary.inferFrom effect words := by
  induction words generalizing effect with
  | nil =>
      rw [inferFrom, effectExact] at inexact
      cases inexact
  | cons word rest inductionHypothesis =>
      rw [List.cons_append]
      unfold inferFrom at inexact ⊢
      cases found : dictionary.effectOf? word with
      | none => rfl
      | some next =>
          simp only [found] at inexact ⊢
          split
          · rename_i both
            rw [if_pos both] at inexact
            exact inductionHypothesis both inexact
          · rfl

/-- The effect of a body can take the place of the body. -/
theorem inferFrom_body
    {body : List Word}
    (effectExact : effect.exact = true)
    (nonneg : 0 ≤ effect.output)
    (exact : (dictionary.infer body).exact = true)
    (more : List Word) :
    dictionary.inferFrom effect (body.reverse ++ more) =
      dictionary.inferFrom (effect.andThen (dictionary.infer body)) more := by
  have whole : dictionary.inferFrom effect body.reverse =
      effect.andThen (dictionary.infer body) := by
    rw [infer, ← inferFrom_andThen effectExact, Effect.andThen_neutral nonneg]
  have wholeExact : (dictionary.inferFrom effect body.reverse).exact = true := by
    rw [whole, Effect.exact_andThen, effectExact, exact, Bool.and_self]
  rw [inferFrom_append wholeExact, whole]

/-! ## Dictionaries of numbers of words -/

/-- The numbers of all effects in a dictionary are numbers of words. -/
def Nonneg (dictionary : Dictionary) : Prop :=
  ∀ name binding, dictionary.get? name = some binding → binding.effect.Nonneg

theorem Nonneg.of_effectOf?
    (nonneg : dictionary.Nonneg)
    (found : dictionary.effectOf? word = some effect) :
    effect.Nonneg := by
  cases word with
  | atom name =>
      obtain ⟨binding, bound, rfl⟩ := Option.map_eq_some_iff.mp found
      exact nonneg name binding bound
  | int | hex | str | list | dict =>
      cases found
      exact Effect.nonneg_literal

theorem Nonneg.inferFrom
    (nonneg : dictionary.Nonneg)
    (effectNonneg : effect.Nonneg)
    (words : List Word) :
    (dictionary.inferFrom effect words).Nonneg := by
  induction words generalizing effect with
  | nil => exact effectNonneg
  | cons word rest inductionHypothesis =>
      unfold Dictionary.inferFrom
      split
      · exact ⟨effectNonneg.input, effectNonneg.output⟩
      · rename_i next found
        have both := effectNonneg.andThen (nonneg.of_effectOf? found)
        split
        · exact inductionHypothesis both
        · exact both

theorem Nonneg.infer (nonneg : dictionary.Nonneg) (body : List Word) :
    (dictionary.infer body).Nonneg :=
  nonneg.inferFrom ⟨Int.le_refl 0, Int.le_refl 0⟩ body.reverse

/-- The effect of code that runs in two parts. The second list runs first; if its effect is inexact,
the first list is not looked at. -/
theorem infer_append
    (nonneg : dictionary.Nonneg)
    (first second : List Word) :
    dictionary.infer (first ++ second) =
      if (dictionary.infer second).exact then
        (dictionary.infer second).andThen (dictionary.infer first)
      else dictionary.infer second := by
  have whole : dictionary.infer (first ++ second) =
      dictionary.inferFrom .neutral (second.reverse ++ first.reverse) := by
    rw [infer, List.reverse_append]
  rw [whole]
  split
  · rename_i exact
    rw [inferFrom_append exact]
    calc
      dictionary.inferFrom (dictionary.infer second) first.reverse =
          dictionary.inferFrom ((dictionary.infer second).andThen .neutral) first.reverse := by
        rw [Effect.andThen_neutral (nonneg.infer second).output]
      _ = (dictionary.infer second).andThen (dictionary.infer first) :=
        inferFrom_andThen exact .neutral first.reverse
  · rename_i inexact
    exact inferFrom_append_of_inexact rfl (Bool.eq_false_iff.mpr inexact) first.reverse

/-- Inference is compositional. Effects compose associatively, doing nothing is the identity for
effects whose numbers are numbers of words, and the effect of code in two parts is composed of the
effects of its parts, unless the part that runs first has an inexact effect, which is then the
effect of the whole. -/
theorem infer_compositional :
    (∀ first second third : Effect,
      (first.andThen second).andThen third = first.andThen (second.andThen third)) ∧
    (∀ effect : Effect, effect.Nonneg →
      Effect.neutral.andThen effect = effect ∧ effect.andThen .neutral = effect) ∧
    ∀ dictionary : Dictionary, dictionary.Nonneg → ∀ first second : List Word,
      dictionary.infer (first ++ second) =
        if (dictionary.infer second).exact then
          (dictionary.infer second).andThen (dictionary.infer first)
        else dictionary.infer second := by
  refine ⟨Effect.andThen_assoc, ?_, ?_⟩
  · intro effect nonneg
    exact ⟨Effect.neutral_andThen nonneg.input, Effect.andThen_neutral nonneg.output⟩
  · intro dictionary nonneg first second
    exact infer_append nonneg first second

theorem nonneg_builtins : builtins.Nonneg := by
  intro name binding found
  obtain ⟨builtin, -, same⟩ := List.mem_map.mp (Record.mem_of_get? found)
  cases same
  exact Effect.nonneg_builtin builtin

/-- The code `put 5` after the code `put` needs a word more than `put` leaves; after the code
`put eval` nothing is known about it. -/
theorem infer_compositional_put :
    let first : List Word := [.atom "put", .int 5]
    builtins.infer (first ++ [.atom "put"]) = ⟨4, 1, true⟩ ∧
      (⟨3, 1, true⟩ : Effect).andThen .neutral = ⟨3, 1, true⟩ ∧
      builtins.infer (first ++ [.atom "eval", .atom "put"]) = ⟨3, 0, false⟩ := by
  intro first
  obtain ⟨-, identity, append⟩ := infer_compositional
  refine ⟨?_, (identity _ (by decide)).2, ?_⟩
  · rw [append _ nonneg_builtins]
    decide +kernel
  · rw [append _ nonneg_builtins]
    decide +kernel

end Dictionary

/-! ## Stored effects -/

/-- The numbers of the effect of a binding are numbers of words, and a definition that is no list has
the effect of a word that stands for itself. -/
def Binding.Measured (binding : Binding) : Prop :=
  binding.effect.Nonneg ∧
    ∀ effect word, binding = .defined effect word → word.isList = false → effect = .literal

namespace Dictionary

variable {dictionary : Dictionary}

/-- All bindings of a dictionary are measured. -/
def Measured (dictionary : Dictionary) : Prop :=
  ∀ name binding, dictionary.get? name = some binding → binding.Measured

theorem Measured.nonneg (measured : dictionary.Measured) : dictionary.Nonneg :=
  fun name binding bound => (measured name binding bound).1

/-- Definitions keep a dictionary measured. -/
theorem Measured.put
    (measured : dictionary.Measured)
    (name : String)
    (word : Word) :
    Measured (dictionary.put name (.defined (dictionary.effectOfDefinition word) word)) := by
  intro other binding found
  by_cases same : name = other
  · subst same
    rw [Record.get?_put_self] at found
    cases found
    constructor
    · cases word with
      | list body => exact measured.nonneg.infer body
      | atom | int | hex | str | dict => exact Effect.nonneg_literal
    · rintro _ _ ⟨⟩ noList
      cases word with
      | list body => cases noList
      | atom | int | hex | str | dict => rfl
  · rw [Record.get?_put_of_ne _ _ same] at found
    exact measured other binding found

/-- Every list with an exact effect still has the effect with which it was bound. -/
def UpToDate (dictionary : Dictionary) : Prop :=
  ∀ name effect body, dictionary.get? name = some (.defined effect (.list body)) →
    effect.exact = true → dictionary.infer body = effect

/-- An exact effect is inferred without a look at names that mean nothing. -/
theorem inferFrom_put_of_unbound
    {name : String}
    {effect : Effect}
    {words : List Word}
    (unbound : dictionary.get? name = none)
    (binding : Binding)
    (exact : (dictionary.inferFrom effect words).exact = true) :
    inferFrom (dictionary.put name binding) effect words = dictionary.inferFrom effect words := by
  induction words generalizing effect with
  | nil => rfl
  | cons word rest inductionHypothesis =>
      obtain ⟨next, found, both⟩ := exists_effect_of_exact exact
      have foundToo : effectOf? (dictionary.put name binding) word = some next := by
        cases word with
        | atom other =>
            have different : name ≠ other := by
              rintro rfl
              rw [effectOf?, unbound] at found
              cases found
            rwa [effectOf?, Record.get?_put_of_ne _ _ different]
        | int | hex | str | list | dict => exact found
      rw [inferFrom_cons found both] at exact ⊢
      rw [inferFrom_cons foundToo both, inductionHypothesis exact]

/-- The definition of a new name changes no effect that is exact. -/
theorem UpToDate.put
    {name : String}
    (upToDate : dictionary.UpToDate)
    (unbound : dictionary.get? name = none)
    (word : Word) :
    UpToDate (dictionary.put name (.defined (dictionary.effectOfDefinition word) word)) := by
  intro other effect body found exact
  have stored : dictionary.infer body = effect := by
    by_cases same : name = other
    · subst same
      rw [Record.get?_put_self] at found
      cases found
      rfl
    · rw [Record.get?_put_of_ne _ _ same] at found
      exact upToDate other effect body found exact
  rw [← stored] at exact ⊢
  exact inferFrom_put_of_unbound unbound _ exact

end Dictionary
end Concatenative
