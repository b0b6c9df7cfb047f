import Concatenative.Machine.Question
import Concatenative.Proofs.Library
import Concatenative.Proofs.Machine.Desk
import Mathlib.Data.List.Rotate

/-!
# Rotation

The word `roll` moves the entry at an index to the top of the data stack. This turns the entries
down to the index by one place and leaves those below alone, so that as many turns as there are
entries above the rest bring back the stack as it was. The words `swap` and `rot` of the library are
`roll` with a fixed index.
-/

namespace Concatenative

/-! ## Turns of a list -/

/-- The word at an index, before the others in their order. -/
def broughtUp (index : Nat) (words : List Word) : List Word :=
  words[index]?.toList ++ words.eraseIdx index

theorem broughtUp_of_lt
    {index : Nat}
    {words : List Word}
    (deep : index < words.length) :
    broughtUp index words = words[index] :: words.eraseIdx index := by
  rw [broughtUp, List.getElem?_eq_getElem deep, Option.toList_some, List.singleton_append]

theorem length_broughtUp
    {index : Nat}
    {words : List Word}
    (deep : index < words.length) :
    (broughtUp index words).length = words.length := by
  rw [broughtUp_of_lt deep, List.length_cons, List.length_eraseIdx_of_lt deep]
  omega

/-- Bringing up the last of some words turns them by one place. -/
theorem broughtUp_append
    {index : Nat}
    {above : List Word}
    (width : above.length = index + 1)
    (beneath : List Word) :
    broughtUp index (above ++ beneath) = above.rotate index ++ beneath := by
  have inside : index < above.length := by omega
  have last : above.drop index = [above[index]] := by
    rw [List.drop_eq_getElem_cons inside, List.drop_eq_nil_of_le (by omega)]
  rw [broughtUp, List.getElem?_append_left inside, List.getElem?_eq_getElem inside,
    List.eraseIdx_append_of_lt_length inside, List.eraseIdx_eq_take_drop_succ,
    List.drop_eq_nil_of_le (by omega : above.length ≤ index + 1),
    List.rotate_eq_drop_append_take (by omega), last]
  simp

theorem iterate_broughtUp_append
    {index : Nat}
    {above : List Word}
    (width : above.length = index + 1)
    (beneath : List Word)
    (count : Nat) :
    (broughtUp index)^[count] (above ++ beneath) = above.rotate (index * count) ++ beneath := by
  induction count with
  | zero => simp
  | succ count inductionHypothesis =>
      have turnedWidth : (above.rotate (index * count)).length = index + 1 := by
        rw [List.length_rotate, width]
      rw [Function.iterate_succ_apply', inductionHypothesis, broughtUp_append turnedWidth,
        List.rotate_rotate, Nat.mul_succ]

/-- As many turns as there are words to turn bring each word back to its place. -/
theorem iterate_broughtUp
    {index : Nat}
    {words : List Word}
    (deep : index < words.length) :
    (broughtUp index)^[index + 1] words = words := by
  have width : (words.take (index + 1)).length = index + 1 := by
    rw [List.length_take]
    omega
  have whole := List.rotate_length_mul (words.take (index + 1)) index
  rw [width, Nat.mul_comm] at whole
  calc (broughtUp index)^[index + 1] words
    _ = (broughtUp index)^[index + 1] (words.take (index + 1) ++ words.drop (index + 1)) := by
        rw [List.take_append_drop]
    _ = words.take (index + 1) ++ words.drop (index + 1) := by
        rw [iterate_broughtUp_append width, whole]
    _ = words := List.take_append_drop ..

/-! ## Words that turn the data stack -/

namespace Rotation

open Machine

/-- Words that bring up the entry at an index, and the names whose meanings they depend on. -/
inductive Turns : Nat → List Word → List String → Prop
  /-- The index may be an integer. -/
  | int (index : Nat) : Turns index [.atom "roll", .int index] ["roll"]
  /-- The index may be written in base sixteen. -/
  | hex (index : Nat) : Turns index [.atom "roll", .hex index] ["roll"]
  /-- Two entries change places. -/
  | swap : Turns 1 [.atom "swap"] ["swap", "roll"]
  /-- The third entry comes up. -/
  | rot : Turns 2 [.atom "rot"] ["rot", "roll"]

variable {σ : Type} {host : Host σ} {dictionary : Dictionary} {world : σ}
variable {data code below words : List Word} {recovery : List Snapshot} {log : List Event}
variable {index : Nat} {names : List String}

theorem wordAt?_of_lt (deep : index < data.length) :
    wordAt? (index : Int) data = some data[index] :=
  List.getElem?_eq_getElem deep

theorem intoHex_natCast (index : Nat) : (Word.int index).intoHex = .ok (index : Int) := by
  simp only [Word.intoHex, if_pos (Int.natCast_nonneg index)]

/-! ### One turn -/

/-- An index on top of the data stack counts the entries below it. -/
theorem leads_roll_of_lt
    {operand : Word}
    (bound : dictionary.get? "roll" = some (.primitive .roll))
    (read : operand.intoHex = .ok (index : Int))
    (deep : index < data.length) :
    Leads host
      (Desk.machine (.atom "roll" :: code) recovery log ⟨operand :: data, dictionary, world⟩)
      (Desk.machine code recovery log ⟨broughtUp index data, dictionary, world⟩) := by
  rw [broughtUp_of_lt deep]
  exact leads_roll bound read (wordAt?_of_lt deep)

theorem leads_roll_int
    (bound : dictionary.get? "roll" = some (.primitive .roll))
    (deep : index < data.length) :
    Leads host
      (Desk.machine (.int index :: .atom "roll" :: code) recovery log ⟨data, dictionary, world⟩)
      (Desk.machine code recovery log ⟨broughtUp index data, dictionary, world⟩) :=
  (leads_literal (by simp)).trans (leads_roll_of_lt bound (intoHex_natCast index) deep)

/-- A definition with a fixed index asks for one entry before it is called, whatever the index. -/
theorem leads_fixed
    {name : String}
    (defined : dictionary.get? name =
      some (.defined ⟨1, 1, true⟩ (.list [.atom "roll", .int index])))
    (bound : dictionary.get? "roll" = some (.primitive .roll))
    (deep : index < data.length) :
    Leads host
      (Desk.machine (.atom name :: code) recovery log ⟨data, dictionary, world⟩)
      (Desk.machine code recovery log ⟨broughtUp index data, dictionary, world⟩) := by
  have enough : (1 : Int) ≤ data.length := by omega
  exact (leads_call_of_deep defined fun _ => enough).trans (leads_roll_int bound deep)

theorem leads_turn
    (turns : Turns index words names)
    (provides : Library.Provides names dictionary)
    (deep : index < data.length) :
    Leads host
      (Desk.machine (words.reverse ++ code) recovery log ⟨data, dictionary, world⟩)
      (Desk.machine code recovery log ⟨broughtUp index data, dictionary, world⟩) := by
  cases turns with
  | int => exact leads_roll_int (provides.primitive .roll (by decide)) deep
  | hex =>
      have bound := provides.primitive .roll (by decide)
      exact (leads_literal (by simp)).trans (leads_roll_of_lt bound rfl deep)
  | swap =>
      have bound := provides.primitive .roll (by decide)
      exact leads_fixed ((provides "swap" (by decide)).trans rfl) bound deep
  | rot =>
      have bound := provides.primitive .roll (by decide)
      exact leads_fixed ((provides "rot" (by decide)).trans rfl) bound deep

/-! ### Turns in a row -/

theorem leads_turns
    (turns : Turns index words names)
    (provides : Library.Provides names dictionary)
    (deep : index < data.length)
    (count : Nat) :
    Leads host
      (Desk.machine ((List.replicate count words).flatten.reverse ++ code) recovery log
        ⟨data, dictionary, world⟩)
      (Desk.machine code recovery log ⟨(broughtUp index)^[count] data, dictionary, world⟩) := by
  induction count generalizing data with
  | zero => exact .refl _
  | succ count inductionHypothesis =>
      have stillDeep : index < (broughtUp index data).length := by rwa [length_broughtUp deep]
      rw [List.replicate_succ', List.flatten_append, List.flatten_singleton, List.reverse_append,
        List.append_assoc, Function.iterate_succ_apply]
      exact (leads_turn turns provides deep).trans (inductionHypothesis stillDeep)

/-! ### Too few entries -/

theorem execute_roll_of_shallow
    {machine : Machine σ}
    {operand : Word}
    (bound : machine.dictionary.get? "roll" = some (.primitive .roll))
    (operands : machine.data = operand :: data)
    (read : operand.intoHex = .ok (index : Int))
    (shallow : data.length ≤ index) :
    ∃ failed,
      Action.execute host "roll" (machine.begun "roll" code) =
        .error (.eval .stackUnderflow) failed := by
  have begunData : (machine.begun "roll" code).data = operand :: data := by
    rw [data_begun, operands]
  have missing : wordAt? (index : Int) data = none := List.getElem?_eq_none shallow
  let popped : Machine σ :=
    { machine.begun "roll" code with
      data := data
      journal := .popped operand :: (machine.begun "roll" code).journal }
  have refused : Action.removeAt (index : Int) popped =
      .error (.eval .stackUnderflow) popped := by
    simp only [Action.removeAt, Stacks.removeAt?, Stacks.entry?, popped, missing, Action.failAt,
      if_pos (Int.natCast_nonneg index)]
    rfl
  refine ⟨popped, (execute_of_primitive bound).trans ?_⟩
  exact (Action.bind_of_ok (Action.popAs_of_cons begunData read)).trans
    (Action.bind_of_error refused)

/-- An index that is written down is read as the index. -/
theorem Turns.read_operand
    {operand : Word}
    (turns : Turns index words names)
    (spelled : words = [.atom "roll", operand]) :
    operand.intoHex = .ok (index : Int) ∧ (∀ name, operand ≠ .atom name) ∧ "roll" ∈ names := by
  cases turns with
  | int =>
      cases spelled
      exact ⟨intoHex_natCast index, by simp, by decide⟩
  | hex =>
      cases spelled
      exact ⟨rfl, by simp, by decide⟩
  | swap | rot => exact absurd (congrArg List.length spelled) (by simp)

/-- The word `roll` rotates. Take words that say "roll `index`", with the index written as an
integer or in base sixteen, or the word `swap` for the index one or `rot` for the index two. On a
data stack with more entries than the index says, they move the entry at the index to the top, leave
the others in their order, and change nothing else; one time more than the index says they bring
back the stack as it was. If an index is written down and there are no more entries than it says,
then outside all protected regions `roll` fails for want of entries, and the machine stays as it was
with the index on top of the data. -/
theorem roll_rotates
    {machine : Machine σ}
    {tracing : Bool}
    (turns : Turns index words names)
    (initial : ∀ name ∈ names,
      machine.dictionary.get? name = (Library.fresh host tracing world).dictionary.get? name) :
    (∀ deep : index < machine.data.length,
      (machine.code = words.reverse ++ below →
        machine.Gets host (machine.data[index] :: machine.data.eraseIdx index) below) ∧
      (machine.code = (List.replicate (index + 1) words).flatten.reverse ++ below →
        machine.Gets host machine.data below)) ∧
    (∀ operand, words = [.atom "roll", operand] → machine.data.length ≤ index →
      machine.recovery = [] → machine.code = words.reverse ++ below →
      ∃ final,
        (∀ steps, run host (steps + 2) machine = some (.error (.eval .stackUnderflow) final)) ∧
        Untouched
          { machine with data := operand :: machine.data, code := .atom "roll" :: below } final) := by
  rw [Library.dictionary_fresh] at initial
  refine ⟨fun deep => ⟨fun next => ?_, fun next => ?_⟩, ?_⟩
  · rw [← broughtUp_of_lt deep]
    exact (leads_turn turns initial deep).gets rfl next
  · have turned : machine.Gets host ((broughtUp index)^[index + 1] machine.data) below :=
      (leads_turns turns initial deep (index + 1)).gets rfl next
    rwa [iterate_broughtUp deep] at turned
  · intro operand spelled shallow unprotected next
    obtain ⟨read, literal, used⟩ := turns.read_operand spelled
    rw [spelled] at next
    let indexed : Machine σ :=
      { machine with data := operand :: machine.data, code := .atom "roll" :: below }
    have shift : machine.step host = .running indexed := step_of_literal literal next
    have bound : indexed.dictionary.get? "roll" = some (.primitive .roll) :=
      Library.Provides.primitive initial .roll used
    obtain ⟨failed, failure⟩ := execute_roll_of_shallow bound rfl read shallow
    have ended : indexed.step host =
        .ended (.error (.eval .stackUnderflow) (indexed.withdrawn "roll" below)) :=
      step_withdraws unprotected rfl failure
    refine ⟨indexed.withdrawn "roll" below, fun steps => ?_, withdrawn_untouched rfl⟩
    rw [run_of_running shift, run_of_ended ended]

/-- Four entries: a turn down to the third one while tracing inside a protected region, three turns
in a row, and an index that is one too large. -/
theorem roll_rotates_third :
    let machine (code : List Word) (recovery : List Snapshot) : Machine Answer :=
      { data := [.int 1, .str "two", .list [.int 3], .int 4]
        code := code
        dictionary := Library.dictionary
        recovery := recovery
        tracing := true
        world := {} }
    let region : Snapshot := ⟨Dictionary.builtins, [], [.atom "echo"]⟩
    (machine [.hex 2, .atom "roll", .atom "bye"] [region]).Gets Answer.host
        [.list [.int 3], .int 1, .str "two", .int 4] [.atom "bye"] ∧
      (machine [.atom "rot", .atom "rot", .atom "rot", .atom "bye"] [region]).Gets Answer.host
        [.int 1, .str "two", .list [.int 3], .int 4] [.atom "bye"] ∧
      ∃ final,
        (∀ steps, run Answer.host (steps + 2) (machine [.int 4, .atom "roll", .atom "bye"] []) =
          some (.error (.eval .stackUnderflow) final)) ∧
        final.data = [.int 4, .int 1, .str "two", .list [.int 3], .int 4] ∧
        final.code = [.atom "roll", .atom "bye"] := by
  intro machine region
  have initial : ∀ names : List String, ∀ name ∈ names,
      Record.get? Library.dictionary name =
        Record.get? (Library.fresh Answer.host false {}).dictionary name := by
    rw [Library.dictionary_fresh]
    exact fun _ _ _ => rfl
  refine ⟨?_, ?_, ?_⟩
  · exact ((roll_rotates (.hex 2) (initial _)).1 (by decide)).1 rfl
  · exact ((roll_rotates .rot (initial _)).1 (by decide)).2 rfl
  · have shallow : (machine [.int 4, .atom "roll", .atom "bye"] []).data.length ≤ 4 := by decide
    obtain ⟨final, failure, same⟩ := (roll_rotates (.int 4) (initial _)).2 _ rfl shallow rfl rfl
    exact ⟨final, failure, same.data, same.code⟩

end Rotation
end Concatenative
