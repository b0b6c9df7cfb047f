import Concatenative.Machine.Question
import Concatenative.Proofs.Library
import Concatenative.Proofs.Machine.Desk
import Mathlib.Data.Set.Function
import Mathlib.Logic.Function.Iterate

/-!
# Repetition

The words `times` and `loop` of the library repeat a list of words. Both fill a template with that
list and put it on the code stack: the list, to be run now, and below it the word itself with all it
needs for the next round. So a round leaves nothing behind on the code stack, and names inside the
list are not mistaken for those of the template.
-/

namespace Concatenative

/-! ## What a piece of code does in a setting -/

/-- What surrounds the two stacks of a machine that works on them. -/
structure Setting (σ : Type) where
  /-- The meanings of names. -/
  dictionary : Dictionary
  /-- The snapshots of the protected regions that are open, innermost first. -/
  recovery : List Snapshot
  /-- The states in which the host may be. -/
  worlds : Set σ

/-- The stacks of the machine are in a setting. -/
structure Machine.Within {σ : Type} (setting : Setting σ) (machine : Machine σ) : Prop where
  /-- Names have the meanings of the setting. -/
  dictionary : machine.dictionary = setting.dictionary
  /-- The regions of the setting are open. -/
  recovery : machine.recovery = setting.recovery
  /-- The host is in one of the states of the setting. -/
  world : machine.world ∈ setting.worlds

namespace Setting

open Machine

variable {σ : Type} {setting : Setting σ} {host : Host σ}
variable {data code middleData middleCode laterData laterCode : List Word}

/-- In a setting, every machine with some data and code gets to other data and code, and is in the
setting again. -/
def Carries
    (host : Host σ)
    (setting : Setting σ)
    (data code laterData laterCode : List Word) :
    Prop :=
  ∀ machine : Machine σ,
    machine.Within setting → machine.data = data → machine.code = code →
      ∃ steps after,
        Advances host steps machine after ∧
        after.Within setting ∧ after.data = laterData ∧ after.code = laterCode

theorem Carries.trans
    (earlier : setting.Carries host data code middleData middleCode)
    (later : setting.Carries host middleData middleCode laterData laterCode) :
    setting.Carries host data code laterData laterCode := by
  intro machine within atData atCode
  obtain ⟨steps, middle, advances, stillWithin, middleAtData, middleAtCode⟩ :=
    earlier machine within atData atCode
  obtain ⟨more, after, further, rest⟩ := later middle stillWithin middleAtData middleAtCode
  exact ⟨steps + more, after, advances.trans further, rest⟩

/-- What a machine is led to from a desk in the setting is what the setting carries. -/
theorem Carries.of_leads
    (leads : ∀ world ∈ setting.worlds, ∀ log, ∃ laterWorld ∈ setting.worlds, ∃ laterLog,
      Leads host (Desk.machine code setting.recovery log ⟨data, setting.dictionary, world⟩)
        (Desk.machine laterCode setting.recovery laterLog
          ⟨laterData, setting.dictionary, laterWorld⟩)) :
    setting.Carries host data code laterData laterCode := by
  rintro machine within rfl rfl
  obtain ⟨laterWorld, allowed, laterLog, leads⟩ := leads machine.world within.world machine.log
  have mirrors : (Desk.machine machine.code setting.recovery machine.log
      ⟨machine.data, setting.dictionary, machine.world⟩).Mirrors [] machine :=
    ⟨rfl, rfl, within.dictionary, within.recovery, rfl, (List.append_nil _).symm⟩
  obtain ⟨steps, after, advances, same⟩ := leads machine mirrors
  refine ⟨steps, after, advances, ⟨same.dictionary, same.recovery, ?_⟩, same.data, same.code⟩
  rw [same.world]
  exact allowed

/-- What leaves the host alone can be done in every setting. -/
theorem Carries.of_quiet_leads
    (leads : ∀ world log,
      Leads host (Desk.machine code setting.recovery log ⟨data, setting.dictionary, world⟩)
        (Desk.machine laterCode setting.recovery log ⟨laterData, setting.dictionary, world⟩)) :
    setting.Carries host data code laterData laterCode :=
  .of_leads fun world allowed log => ⟨world, allowed, log, leads world log⟩

/-- In a setting, a body changes each data stack of a set as a function tells, whatever code lies
below, and the result is in the set again. -/
structure Transforms
    (host : Host σ)
    (setting : Setting σ)
    (body : List Word)
    (states : Set (List Word))
    (change : List Word → List Word) :
    Prop where
  /-- The function maps the set to itself. -/
  closed : Set.MapsTo change states states
  /-- The body does what the function tells. -/
  carries : ∀ data ∈ states, ∀ below,
    setting.Carries host data (body.reverse ++ below) (change data) below

end Setting

namespace Repetition

open Machine Library

variable {σ : Type} {host : Host σ} {dictionary : Dictionary} {world : σ}
variable {data body code below : List Word} {recovery : List Snapshot} {log : List Event}

/-! ## Endless rounds -/

/-- The words that `loop` executes itself. -/
def loopWords : List String :=
  ["loop", "eval", "expand"]

/-- The code between two rounds of `loop`: what is to be repeated, and the word. -/
def resumption (body : List Word) : List Word :=
  [.list body, .atom "loop"]

/-- On every round, `loop` puts the body on the code stack, and below it what begins the next
round. -/
theorem leads_loop (provides : Provides loopWords dictionary) :
    Leads host
      (Desk.machine (.atom "loop" :: code) recovery log ⟨.list body :: data, dictionary, world⟩)
      (Desk.machine (body.reverse ++ (resumption body ++ code)) recovery log
        ⟨data, dictionary, world⟩) := by
  have evaluates : dictionary.get? "eval" = some (.primitive .eval) :=
    provides.primitive .eval (by decide)
  refine (leads_call ((provides "loop" (by decide)).trans rfl) rfl).trans ?_
  refine leads_list.trans (leads_list.trans ?_)
  refine (leads_expand [("body", .list body)] (provides.primitive .expand (by decide))).trans ?_
  refine (leads_eval evaluates).trans (leads_list.trans ?_)
  exact leads_eval evaluates

/-! ## Counted rounds -/

/-- The words that `times` executes itself. -/
def timesWords : List String :=
  ["times", "eval", "expand", "if", ">", "-"]

/-- The template of `times`. -/
def timesTemplate : Word :=
  .list
    [.atom "if", .atom ">", .atom "n", .int 0,
      .list [.atom "times", .atom "-", .atom "n", .int 1, .atom "body", .atom "eval", .atom "body"],
      .list []]

/-- The code of one more round of `times`. -/
def oneMoreRound (count : Word) (body : List Word) : List Word :=
  [.atom "times", .atom "-", count, .int 1, .list body, .atom "eval", .list body]

/-- The code below the body in a round of `times`. -/
def nextRound (count : Word) (body : List Word) : List Word :=
  [.list body, .int 1, count, .atom "-", .atom "times"]

/-- Filling the template puts the count and the body in and does not look into them. -/
theorem expand_timesTemplate (count : Word) (body : List Word) :
    timesTemplate.expand (.ofPairs [("n", count), ("body", .list body)]) =
      .list
        [.atom "if", .atom ">", count, .int 0, .list (oneMoreRound count body), .list []] := rfl

section Times

variable {count : Word} {number : Int}

theorem ne_atom_of_counts (counts : count = .int number ∨ count = .hex number) (name : String) :
    count ≠ .atom name := by
  rcases counts with rfl | rfl <;> simp

theorem operand_of_counts
    (counts : count = .int number ∨ count = .hex number)
    (small : number ≤ maxInt) :
    count.operand = .ok number := by
  rcases counts with rfl | rfl
  · rfl
  · exact Word.operand_hex_of_le small

/-- The count decides whether `times` puts one more round on the code stack. -/
theorem leads_times
    (provides : Provides timesWords dictionary)
    (counts : count = .int number ∨ count = .hex number)
    (small : number ≤ maxInt) :
    Leads host
      (Desk.machine (.atom "times" :: code) recovery log
        ⟨count :: .list body :: data, dictionary, world⟩)
      (Desk.machine ((if decide (0 < number) then oneMoreRound count body else []).reverse ++ code)
        recovery log ⟨data, dictionary, world⟩) := by
  have operand : count.operand = .ok number := operand_of_counts counts small
  refine (leads_call ((provides "times" (by decide)).trans rfl) rfl).trans ?_
  refine leads_list.trans (leads_list.trans ?_)
  refine (leads_expand [("n", count), ("body", .list body)]
    (provides.primitive .expand (by decide))).trans ?_
  change Leads host (Desk.machine _ recovery log ⟨timesTemplate.expand _ :: data, _, _⟩) _
  rw [expand_timesTemplate]
  refine (leads_eval (provides.primitive .eval (by decide))).trans ?_
  refine leads_list.trans (leads_list.trans ?_)
  refine (leads_literal (by simp)).trans ((leads_literal (ne_atom_of_counts counts)).trans ?_)
  refine (leads_combine (provides.primitive .greater (by decide)) rfl operand rfl rfl).trans ?_
  exact leads_branch (provides.primitive .branch (by decide))

/-- Without a positive count, `times` does nothing. -/
theorem leads_times_none
    (provides : Provides timesWords dictionary)
    (counts : count = .int number ∨ count = .hex number)
    (none : number ≤ 0) :
    Leads host
      (Desk.machine (.atom "times" :: code) recovery log
        ⟨count :: .list body :: data, dictionary, world⟩)
      (Desk.machine code recovery log ⟨data, dictionary, world⟩) := by
  refine (leads_times provides counts (Int.le_trans none (by decide))).trans ?_
  rw [if_neg (by simpa using none)]
  exact .refl _

/-- With a positive count, `times` puts the body on the code stack, and below it the next round. -/
theorem leads_times_again
    (provides : Provides timesWords dictionary)
    (counts : count = .int number ∨ count = .hex number)
    (small : number ≤ maxInt)
    (again : 0 < number) :
    Leads host
      (Desk.machine (.atom "times" :: code) recovery log
        ⟨count :: .list body :: data, dictionary, world⟩)
      (Desk.machine (body.reverse ++ (nextRound count body ++ code)) recovery log
        ⟨data, dictionary, world⟩) := by
  refine (leads_times provides counts small).trans ?_
  rw [if_pos (by simpa using again)]
  exact leads_list.trans (leads_eval (provides.primitive .eval (by decide)))

/-- The next round begins with one less on the count. -/
theorem leads_nextRound
    (provides : Provides timesWords dictionary)
    (counts : count = .int number ∨ count = .hex number)
    (small : number ≤ maxInt)
    (again : 0 < number) :
    Leads host
      (Desk.machine (nextRound count body ++ code) recovery log ⟨data, dictionary, world⟩)
      (Desk.machine (.atom "times" :: code) recovery log
        ⟨.int (number - 1) :: .list body :: data, dictionary, world⟩) := by
  have operand : count.operand = .ok number := operand_of_counts counts small
  have fits : wrap (number - 1) = number - 1 := by
    unfold maxInt at small
    apply wrap_of_fits <;> simp only [minInt, maxInt] <;> omega
  have difference : Action.wrapped (· - ·) number 1 = .ok (.int (number - 1)) := by
    rw [Action.wrapped, fits]
  refine leads_list.trans ((leads_literal (by simp)).trans ?_)
  refine (leads_literal (ne_atom_of_counts counts)).trans ?_
  exact leads_combine (provides.primitive .sub (by decide)) rfl operand rfl difference

end Times

/-! ## A body that leaves marks -/

/-- A list with the names that the templates of `loop` and `times` use. -/
def mark : Word :=
  .list [.atom "n", .atom "body"]

/-- Show a text and leave a mark. -/
def marking : List Word :=
  [mark, .atom "echo", .str "mark"]

/-- The setting in which the library is loaded and a protected region is open. -/
def guarded : Setting Answer where
  dictionary := Library.dictionary
  recovery := [⟨Library.dictionary, [], [.atom "bye"]⟩]
  worlds := Set.univ

theorem marking_transforms : guarded.Transforms Answer.host marking Set.univ (mark :: ·) where
  closed := Set.mapsTo_univ _ _
  carries data _ below := by
    refine .of_leads fun world _ log => ⟨world, trivial, .echo "mark" :: log, ?_⟩
    refine (leads_literal (by simp)).trans ?_
    exact (leads_echo (Library.get?_name .echo)).trans leads_list

/-! ## Whole repetitions -/

section Bodies

variable {setting : Setting σ} {states : Set (List Word)} {change : List Word → List Word}
variable {tracing : Bool}

/-- The word `times` runs a body as often as a count says. Suppose that a body changes every data
stack of a set as a function tells, and gives one of the set again, whatever code lies below. Then
`times`, executed with a number on top of the body and of a data stack of the set, over any code,
comes to that code with the function applied to the data stack as many times as the number says, and
not at all if it is negative. Names mean the same afterwards, and the same regions are open. -/
theorem times_iterates
    {count : Word}
    {number : Int}
    (initial : ∀ name ∈ timesWords,
      setting.dictionary.get? name = (Library.fresh host tracing world).dictionary.get? name)
    (transforms : setting.Transforms host body states change)
    (counts : count = .int number ∨ count = .hex number)
    (small : number ≤ maxInt)
    (member : data ∈ states)
    (below : List Word) :
    setting.Carries host (count :: .list body :: data) (.atom "times" :: below)
      (change^[number.toNat] data) below := by
  rw [Library.dictionary_fresh] at initial
  -- The number of rounds that are left decreases; the count is no longer the one that was given.
  generalize rounds : number.toNat = left
  induction left generalizing count number data with
  | zero =>
      refine .of_quiet_leads fun world log => ?_
      exact leads_times_none initial counts (Int.toNat_eq_zero.mp rounds)
  | succ left inductionHypothesis =>
      have again : 0 < number := by omega
      have begins : setting.Carries host (count :: .list body :: data) (.atom "times" :: below)
          data (body.reverse ++ (nextRound count body ++ below)) :=
        .of_quiet_leads fun world log => leads_times_again initial counts small again
      have goesOn : setting.Carries host (change data) (nextRound count body ++ below)
          (.int (number - 1) :: .list body :: change data) (.atom "times" :: below) :=
        .of_quiet_leads fun world log => leads_nextRound initial counts small again
      refine begins.trans ((transforms.carries data member _).trans (goesOn.trans ?_))
      rw [Function.iterate_succ_apply]
      exact inductionHypothesis (.inl rfl) (by omega) (transforms.closed member) (by omega)

/-- Over the word `bye`, which stays where it is, three marks are left. -/
theorem times_iterates_thrice :
    let machine : Machine Answer := Desk.machine [.atom "times", .atom "bye"] guarded.recovery []
      ⟨[.hex 3, .list marking], Library.dictionary, {}⟩
    ∃ steps after,
      Advances Answer.host steps machine after ∧
      after.Within guarded ∧ after.data = [mark, mark, mark] ∧ after.code = [.atom "bye"] := by
  intro machine
  have initial : ∀ name ∈ timesWords,
      guarded.dictionary.get? name = (Library.fresh Answer.host false {}).dictionary.get? name := by
    rw [Library.dictionary_fresh]
    exact fun name _ => rfl
  have carries : guarded.Carries Answer.host machine.data machine.code [mark, mark, mark] _ :=
    times_iterates initial marking_transforms (.inr rfl) (by decide) (Set.mem_univ []) [.atom "bye"]
  exact carries machine ⟨rfl, rfl, trivial⟩ rfl rfl

/-- On every round, `loop` runs the body and comes to where the next round begins. -/
theorem carries_loop
    (provides : Provides loopWords setting.dictionary)
    (transforms : setting.Transforms host body states change)
    (member : data ∈ states)
    (below : List Word) :
    setting.Carries host (.list body :: data) (.atom "loop" :: below) (change data)
      (resumption body ++ below) := by
  have begins : setting.Carries host (.list body :: data) (.atom "loop" :: below) data
      (body.reverse ++ (resumption body ++ below)) :=
    .of_quiet_leads fun world log => leads_loop provides
  exact begins.trans (transforms.carries data member _)

/-- From between two rounds, a machine gets through any number of rounds, and takes at least one
step in each. -/
theorem exists_rounds
    {machine : Machine σ}
    (provides : Provides loopWords setting.dictionary)
    (transforms : setting.Transforms host body states change)
    (within : machine.Within setting)
    (member : machine.data ∈ states)
    (between : machine.code = resumption body ++ below)
    (rounds : Nat) :
    ∃ steps after,
      rounds ≤ steps ∧
      Advances host steps machine after ∧
      after.Within setting ∧
      after.data = change^[rounds] machine.data ∧
      after.code = resumption body ++ below := by
  induction rounds generalizing machine with
  | zero => exact ⟨0, machine, Nat.le_refl 0, .start machine, within, rfl, between⟩
  | succ rounds inductionHypothesis =>
      have shift : machine.step host = .running _ := step_of_literal (by simp) between
      obtain ⟨steps, middle, advances, stillWithin, data, code⟩ :=
        carries_loop provides transforms member below
          { machine with data := .list body :: machine.data, code := .atom "loop" :: below }
          ⟨within.dictionary, within.recovery, within.world⟩ rfl rfl
      obtain ⟨more, after, enough, further, rest⟩ :=
        inductionHypothesis stillWithin (data ▸ transforms.closed member) code
      rw [data] at rest
      refine ⟨steps + 1 + more, after, by omega, ?_, rest⟩
      exact (Advances.step shift advances).trans further

/-- The word `loop` runs a body without end, and the code stack does not grow. Suppose that a body
changes every data stack of a set as a function tells, and gives one of the set again, whatever code
lies below. Then a machine that executes `loop` with the body on top of a data stack of the set
passes, for every positive number of rounds, through a state in which the function has been applied
to the data stack so many times and the code stack holds, on the code that was there before, the
body and the word `loop`. There is always code to execute on the way, and the run has no outcome. -/
theorem loop_iterates
    {machine : Machine σ}
    (initial : ∀ name ∈ loopWords,
      setting.dictionary.get? name = (Library.fresh host tracing world).dictionary.get? name)
    (transforms : setting.Transforms host body states change)
    (within : machine.Within setting)
    (member : data ∈ states)
    (operands : machine.data = .list body :: data)
    (next : machine.code = .atom "loop" :: below) :
    (∀ rounds, 1 ≤ rounds →
      ∃ steps after,
        Advances host steps machine after ∧
        after.Within setting ∧
        after.data = change^[rounds] data ∧
        after.code = .list body :: .atom "loop" :: below) ∧
    (∀ steps state, Advances host steps machine state → state.code ≠ []) ∧
    ∀ steps, run host steps machine = none := by
  rw [Library.dictionary_fresh] at initial
  obtain ⟨first, middle, advances, stillWithin, middleData, middleCode⟩ :=
    carries_loop initial transforms member below machine within operands next
  have later := exists_rounds initial transforms stillWithin
    (middleData ▸ transforms.closed member) middleCode
  have endless : machine.Endless host := by
    intro count
    obtain ⟨steps, after, enough, further, -⟩ := later count
    exact ⟨first + steps, after, by omega, advances.trans further⟩
  refine ⟨fun rounds positive => ?_, fun _ _ => endless.code_ne_nil, endless.run_eq_none⟩
  obtain ⟨rounds, rfl⟩ := Nat.exists_eq_add_of_le' positive
  obtain ⟨steps, after, -, further, afterWithin, afterData, afterCode⟩ := later rounds
  refine ⟨first + steps, after, advances.trans further, afterWithin, ?_, afterCode⟩
  rw [afterData, middleData, Function.iterate_succ_apply]

/-- Over the word `bye`, which is never reached, marks are left without end. -/
theorem loop_iterates_marking :
    let machine : Machine Answer := Desk.machine [.atom "loop", .atom "bye"] guarded.recovery []
      ⟨[.list marking, .int 7], Library.dictionary, {}⟩
    (∀ rounds, 1 ≤ rounds →
      ∃ steps after,
        Advances Answer.host steps machine after ∧
        after.Within guarded ∧
        after.data = (mark :: ·)^[rounds] [.int 7] ∧
        after.code = [.list marking, .atom "loop", .atom "bye"]) ∧
    (∀ steps state, Advances Answer.host steps machine state → state.code ≠ []) ∧
    ∀ steps, run Answer.host steps machine = none := by
  intro machine
  have initial : ∀ name ∈ loopWords,
      guarded.dictionary.get? name = (Library.fresh Answer.host false {}).dictionary.get? name := by
    rw [Library.dictionary_fresh]
    exact fun name _ => rfl
  have member : [Word.int 7] ∈ Set.univ := Set.mem_univ _
  exact loop_iterates initial marking_transforms ⟨rfl, rfl, trivial⟩ member rfl rfl

end Bodies

end Repetition
end Concatenative
