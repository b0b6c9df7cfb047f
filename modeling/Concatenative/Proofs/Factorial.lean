import Concatenative.Machine.Question
import Concatenative.Proofs.Library
import Concatenative.Proofs.Machine.Desk
import Concatenative.Proofs.Source.WellFormed
import Mathlib.Data.Nat.Factorial.Basic

/-!
# The factorial

The demonstrated program calls itself: of a number that is two or more it makes a copy, computes the
factorial of the number before it and multiplies. As many multiplications wait on the code stack as
the number says. Each result is brought into thirty-two bits, so that the last one is the factorial
in thirty-two bits.
-/

namespace Concatenative
namespace Factorial

open Library Machine Source

/-- The text of the definition. -/
def text : String :=
  "fact = { if > 2 pick 2 { drop ; 1 } { * fact + -1 dup } }"

/-- What is done with a number below two, the last word first. -/
def consequent : List Word :=
  [.int 1, .atom "drop"]

/-- What is done with any other number, the last word first. -/
def alternative : List Word :=
  [.atom "*", .atom "fact", .atom "+", .int (-1), .atom "dup"]

/-- The words of the definition. Two lists lie on the number when it is copied. -/
def body : List Word :=
  [.atom "if", .atom ">", .int 2, .atom "pick", .int 2, .list consequent, .list alternative]

theorem parse_text : Source.parse text = .ok [.atom "fact", .atom "=", .list body] := by
  decide +kernel

/-! ## The dictionary -/

/-- The words that the definition executes, but for its own name. -/
def words : List String :=
  ["if", ">", "pick", "drop", "*", "+", "dup"]

/-- The name `fact` is defined in a dictionary, and the words that it executes mean there what they
mean in the library. -/
structure Defined (dictionary : Dictionary) : Prop where
  /-- The name stands for the words of the definition, whose effect is not known exactly. -/
  fact : dictionary.get? "fact" = some (.defined ⟨0, 0, false⟩ (.list body))
  /-- The words of the library are at hand. -/
  provides : Provides words dictionary

/-- The dictionary of the library with the definition. -/
def dictionary : Dictionary :=
  Library.dictionary.put "fact" (.defined ⟨0, 0, false⟩ (.list body))

theorem defined_dictionary : Defined dictionary where
  fact := Record.get?_put_self ..
  provides name used := by
    refine Record.get?_put_of_ne _ _ ?_
    rintro rfl
    revert used
    decide

theorem effect_body :
    Library.dictionary.effectOfDefinition (.list body) = ⟨0, 0, false⟩ := by
  decide +kernel

variable {σ : Type} {host : Host σ} {definitions : Dictionary} {world : σ}
variable {data code : List Word} {recovery : List Snapshot} {log : List Event}

/-- A machine that begins with the library and reads the definition has this dictionary
afterwards. -/
theorem exists_evaluate_text (host : Host σ) (tracing : Bool) (world : σ) :
    ∃ machine,
      (fresh host tracing world).evaluate host 3 text = some (.ok () machine) ∧
      machine.dictionary = dictionary := by
  obtain ⟨log, begins⟩ := fresh_eq host tracing world
  let loaded : Machine σ :=
    { bare tracing world with
      code := [.list body, .atom "=", .atom "fact"]
      dictionary := Library.dictionary
      log }
  have bound : loaded.dictionary.get? "=" = some (.primitive .assign) :=
    get?_name .assign
  have effect : loaded.dictionary.effectOfDefinition (.list body) = ⟨0, 0, false⟩ := effect_body
  obtain ⟨log, journal, advances⟩ := advances_definition host rfl bound
  rw [effect] at advances
  have finished := advances.run_eq_ended (step_of_no_code rfl)
  rw [begins, evaluate_of_parse host 3 parse_text]
  exact ⟨_, finished, rfl⟩

/-! ## One call -/

/-- The number decides what is done with it. -/
theorem leads_choice (defined : Defined definitions) (number : Int) :
    Leads host
      (Desk.machine (.atom "fact" :: code) recovery log
        ⟨.int number :: data, definitions, world⟩)
      (Desk.machine ((if decide (number < 2) then consequent else alternative).reverse ++ code)
        recovery log ⟨.int number :: data, definitions, world⟩) := by
  refine (leads_call defined.fact rfl).trans (leads_list.trans (leads_list.trans ?_))
  refine (leads_literal (by simp)).trans ?_
  refine (leads_pick (defined.provides.primitive .pick (by decide)) rfl rfl).trans ?_
  refine (leads_literal (by simp)).trans ?_
  refine (leads_combine (defined.provides.primitive .greater (by decide)) rfl rfl rfl rfl).trans ?_
  exact leads_branch (defined.provides.primitive .branch (by decide))

/-- A number below two is replaced by one. -/
theorem leads_consequent (defined : Defined definitions) (number : Int) :
    Leads host
      (Desk.machine (consequent.reverse ++ code) recovery log
        ⟨.int number :: data, definitions, world⟩)
      (Desk.machine code recovery log ⟨.int 1 :: data, definitions, world⟩) :=
  (leads_drop (defined.provides.primitive .drop (by decide))).trans (leads_literal (by simp))

theorem leads_dup (defined : Defined definitions) (word : Word) :
    Leads host
      (Desk.machine (.atom "dup" :: code) recovery log ⟨word :: data, definitions, world⟩)
      (Desk.machine code recovery log ⟨word :: word :: data, definitions, world⟩) := by
  have bound : definitions.get? "dup" =
      some (.defined ⟨1, 2, true⟩ (.list [.atom "pick", .int 0])) :=
    (defined.provides "dup" (by decide)).trans rfl
  have deep : (1 : Int) ≤ (word :: data).length := by
    rw [List.length_cons]
    omega
  refine (leads_call_of_deep bound fun _ => deep).trans ((leads_literal (by simp)).trans ?_)
  exact leads_pick (defined.provides.primitive .pick (by decide)) rfl rfl

/-- Any other number stays, with the one before it as the argument of the next call. -/
theorem leads_alternative
    (defined : Defined definitions)
    {number : Int}
    (inRange : InRange (number - 1)) :
    Leads host
      (Desk.machine (alternative.reverse ++ code) recovery log
        ⟨.int number :: data, definitions, world⟩)
      (Desk.machine (.atom "fact" :: .atom "*" :: code) recovery log
        ⟨.int (number - 1) :: .int number :: data, definitions, world⟩) := by
  have sum : Action.wrapped (· + ·) (-1) number = .ok (.int (number - 1)) := by
    rw [Action.wrapped, Int.add_comm, ← Int.sub_eq_add_neg, wrap_of_fits inRange.1 inRange.2]
  refine (leads_dup defined _).trans ((leads_literal (by simp)).trans ?_)
  exact leads_combine (defined.provides.primitive .add (by decide)) rfl rfl rfl sum

/-! ## All calls -/

/-- A call leaves the factorial of its number in thirty-two bits, which is one for a negative
number. -/
theorem leads_fact
    (defined : Defined definitions)
    {number : Int}
    (inRange : InRange number) :
    Leads host
      (Desk.machine (.atom "fact" :: code) recovery log
        ⟨.int number :: data, definitions, world⟩)
      (Desk.machine code recovery log
        ⟨.int (wrap number.toNat.factorial) :: data, definitions, world⟩) := by
  -- Each call adds its number to the data and a multiplication to the code.
  induction size : number.toNat generalizing number data code with
  | zero =>
      refine (leads_choice defined number).trans ?_
      rw [if_pos (by simp; omega)]
      exact leads_consequent defined number
  | succ count inductionHypothesis =>
      refine (leads_choice defined number).trans ?_
      obtain one | more := Nat.eq_zero_or_pos count
      · rw [if_pos (by simp; omega), one]
        exact leads_consequent defined number
      · have before : InRange (number - 1) := by
          unfold InRange minInt maxInt at inRange ⊢
          omega
        have product : Action.wrapped (· * ·) (wrap count.factorial) number =
            .ok (.int (wrap (count + 1).factorial)) := by
          have successor : number = (count + 1 : Nat) := by omega
          rw [Action.wrapped, ← wrap_of_fits inRange.1 inRange.2, wrap_mul_wrap, successor,
            Nat.factorial_succ, Int.natCast_mul, Int.mul_comm]
        rw [if_neg (by simp; omega)]
        refine (leads_alternative defined before).trans ?_
        refine (inductionHypothesis before (by omega)).trans ?_
        exact leads_combine (defined.provides.primitive .mul (by decide)) rfl rfl rfl product

/-- The factorial in two's complement of thirty-two bits, and one for a negative number. -/
def result (number : Int) : Int :=
  if 0 ≤ number then (BitVec.ofNat 32 number.toNat.factorial).toInt else 1

theorem result_eq_wrap (number : Int) : result number = wrap number.toNat.factorial := by
  unfold result
  split
  next => rw [wrap_eq_toInt, BitVec.ofInt_natCast]
  next negative =>
    rw [Int.toNat_of_nonpos (by omega)]
    rfl

/-- The recursive program computes the factorial of every integer. A machine that begins with the
library reads the definition and comes to a normal end. Every machine with the dictionary that is
left then, with any number of thirty-two bits on top of its data stack and with `fact` on top of any
code, gets to that code. The factorial in two's complement of thirty-two bits lies in the place of
the number, or one if the number is negative, and nothing else is changed. -/
theorem fact_computes (host : Host σ) (tracing : Bool) (world : σ) :
    ∃ steps defined,
      (fresh host tracing world).evaluate host steps text = some (.ok () defined) ∧
      ∀ (machine : Machine σ) (number : Int) (data below : List Word),
        machine.dictionary = defined.dictionary →
        InRange number →
        machine.data = .int number :: data →
        machine.code = .atom "fact" :: below →
        ∃ steps after,
          Advances host steps machine after ∧
          after.tracing = machine.tracing ∧
          Untouched
            { machine with
              data := .int (result number) :: data
              code := below }
            after := by
  obtain ⟨defined, evaluated, known⟩ := exists_evaluate_text host tracing world
  refine ⟨3, defined, evaluated, fun machine number data below meanings inRange top next => ?_⟩
  have names : Defined machine.dictionary := by
    rw [meanings, known]
    exact defined_dictionary
  rw [result_eq_wrap]
  exact (leads_fact names inRange).exists_untouched machine top next

/-- Tracing, and inside a protected region: the factorial of thirteen is 6227020800, which needs
more than thirty-two bits. -/
theorem fact_computes_thirteen :
    ∃ steps defined,
      (fresh Answer.host true {}).evaluate Answer.host steps text = some (.ok () defined) ∧
      let machine : Machine Answer :=
        { data := [.int 13, .str "below"]
          code := [.atom "fact", .atom "bye"]
          dictionary := defined.dictionary
          recovery := [⟨Library.dictionary, [], [.atom "echo"]⟩]
          tracing := true
          world := {} }
      ∃ steps after,
        Advances Answer.host steps machine after ∧
        after.tracing = true ∧
        Untouched
          { machine with data := [.int 1932053504, .str "below"], code := [.atom "bye"] }
          after := by
  obtain ⟨steps, defined, evaluated, computes⟩ := fact_computes Answer.host true {}
  have value : result 13 = 1932053504 := by decide +kernel
  refine ⟨steps, defined, evaluated, ?_⟩
  rw [← value]
  exact computes _ 13 _ _ rfl (by decide) rfl rfl

end Factorial
end Concatenative
