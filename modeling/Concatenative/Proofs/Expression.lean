import Concatenative.Proofs.Library
import Concatenative.Proofs.Machine.Desk
import Concatenative.Proofs.Source.WellFormed

/-!
# Expressions

Arithmetic is written with the operation in front. The words of an expression leave one integer on
the data stack, the exact value brought into thirty-two bits. The machine does this to the result of
every single operation, which comes to the same.
-/

namespace Concatenative

/-- An operation of two integers. -/
inductive Operation where
  | add
  | sub
  | mul

namespace Operation

/-- The built-in word that carries the operation out. -/
def builtin : Operation → Builtin
  | .add => .add
  | .sub => .sub
  | .mul => .mul

/-- The exact result. -/
def exact : Operation → Int → Int → Int
  | .add, left, right => left + right
  | .sub, left, right => left - right
  | .mul, left, right => left * right

/-- The word brings the exact result into thirty-two bits. -/
theorem perform_builtin {σ : Type} (host : Host σ) (operation : Operation) :
    Action.perform host operation.builtin = Action.combine (Action.wrapped operation.exact) := by
  cases operation <;> rfl

/-- Operands may be brought into thirty-two bits before the result is. -/
theorem wrap_exact_wrap (operation : Operation) (left right : Int) :
    wrap (operation.exact (wrap left) (wrap right)) = wrap (operation.exact left right) := by
  cases operation with
  | add => exact wrap_add_wrap left right
  | sub => exact wrap_sub_wrap left right
  | mul => exact wrap_mul_wrap left right

end Operation

/-- An arithmetic expression over integers of thirty-two bits. -/
inductive Expression where
  | number (value : Int) (inRange : Source.InRange value)
  | binary (operation : Operation) (left right : Expression)
  | negation (operand : Expression)

namespace Expression

/-- The exact value, of any size. -/
def value : Expression → Int
  | .number value _ => value
  | .binary operation left right => operation.exact left.value right.value
  | .negation operand => -operand.value

/-- The words as they are written: an operation, its left operand, its right operand. -/
def words : Expression → List Word
  | .number value _ => [.int value]
  | .binary operation left right => .atom operation.builtin.name :: (left.words ++ right.words)
  | .negation operand => .atom Builtin.neg.name :: operand.words

/-- The built-in words of which expressions are made. -/
def builtins : List Builtin := [.add, .sub, .mul, .neg]

theorem builtin_mem_builtins (operation : Operation) : operation.builtin ∈ builtins := by
  cases operation <;> decide

open Machine

variable {σ : Type} {host : Host σ} {dictionary : Dictionary} {world : σ}
variable {data code : List Word} {recovery : List Snapshot} {log : List Event}

theorem leads_negate
    {number : Int}
    (bound : dictionary.get? Builtin.neg.name = some (.primitive .neg)) :
    Leads host
      (Desk.machine (.atom Builtin.neg.name :: code) recovery log
        ⟨.int number :: data, dictionary, world⟩)
      (Desk.machine code recovery log ⟨.int (wrap (-number)) :: data, dictionary, world⟩) :=
  leads_primitive bound rfl

/-- The words of an expression leave its value. The words on the right are executed first, so that
the left operand comes to lie on the right one. -/
theorem leads_words
    (provides : ∀ builtin ∈ builtins,
      dictionary.get? builtin.name = some (.primitive builtin))
    (expression : Expression) :
    Leads host
      (Desk.machine (expression.words.reverse ++ code) recovery log ⟨data, dictionary, world⟩)
      (Desk.machine code recovery log
        ⟨.int (wrap expression.value) :: data, dictionary, world⟩) := by
  -- Below an operand lie the words and the values of what surrounds it.
  induction expression generalizing code data with
  | number value inRange =>
      rw [Expression.value, wrap_of_fits inRange.1 inRange.2]
      exact leads_literal (by simp)
  | binary operation left right leftHypothesis rightHypothesis =>
      have bound := provides _ (builtin_mem_builtins operation)
      have computed : Action.wrapped operation.exact (wrap left.value) (wrap right.value) =
          .ok (.int (wrap (binary operation left right).value)) := by
        rw [Action.wrapped, operation.wrap_exact_wrap, Expression.value]
      simp only [words, List.reverse_cons, List.reverse_append, List.append_assoc]
      refine rightHypothesis.trans (leftHypothesis.trans ?_)
      exact leads_combine bound (operation.perform_builtin host) rfl rfl computed
  | negation operand operandHypothesis =>
      have bound := provides .neg (by decide)
      simp only [words, List.reverse_cons, List.append_assoc]
      refine operandHypothesis.trans ?_
      rw [Expression.value, ← wrap_neg_wrap]
      exact leads_negate bound

/-- Arithmetic that is written with the operation in front is computed as exact arithmetic, with the
result brought into the two's complement of thirty-two bits. A machine in which the four words have
their meanings gets from the words of an expression, above any code, to that code. It leaves one
integer on the data stack, and nothing else is changed. -/
theorem words_compute
    {machine : Machine σ}
    {below : List Word}
    (provides : ∀ builtin ∈ builtins,
      machine.dictionary.get? builtin.name = some (.primitive builtin))
    (expression : Expression)
    (next : machine.code = expression.words.reverse ++ below) :
    ∃ steps after,
      Advances host steps machine after ∧
      after.tracing = machine.tracing ∧
      Untouched
        { machine with
          data := .int (BitVec.ofInt 32 expression.value).toInt :: machine.data
          code := below }
        after := by
  have mirrors : (Desk.machine (expression.words.reverse ++ below) machine.recovery machine.log
      ⟨machine.data, machine.dictionary, machine.world⟩).Mirrors [] machine :=
    ⟨rfl, next, rfl, rfl, rfl, (List.append_nil _).symm⟩
  obtain ⟨steps, after, advances, same⟩ := leads_words provides expression machine mirrors
  rw [wrap_eq_toInt] at same
  exact ⟨steps, after, advances, advances.tracing_eq, same.data, same.code, same.dictionary,
    same.recovery, same.world, same.calls.trans (List.append_nil _)⟩

/-- Tracing, and inside a protected region: 65536 times the difference of 65535 and -2147483647 needs
more than thirty-two bits, and so does the difference. -/
theorem words_compute_overflowing :
    let machine : Machine Answer :=
      { data := [.str "below"]
        code := [.int 2147483647, .atom "~", .int 65535, .atom "-", .int 65536, .atom "*",
          .atom "bye"]
        dictionary := Library.dictionary
        recovery := [⟨Dictionary.builtins, [], [.atom "echo"]⟩]
        tracing := true
        world := {} }
    ∃ steps after,
      Advances Answer.host steps machine after ∧
      after.tracing = true ∧
      Untouched
        { machine with data := [.int (-131072), .str "below"], code := [.atom "bye"] } after := by
  intro machine
  let difference : Expression :=
    .binary .sub (.number 65535 (by decide)) (.negation (.number 2147483647 (by decide)))
  let product : Expression := .binary .mul (.number 65536 (by decide)) difference
  exact words_compute (fun builtin _ => Library.get?_name builtin) product rfl

end Expression
end Concatenative
