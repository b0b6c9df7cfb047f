import Concatenative.Proofs.Library
import Concatenative.Proofs.Machine.Failure
import Concatenative.Proofs.Machine.Powers
import Concatenative.Proofs.Machine.Region

/-!
# How protected regions are closed

Opening a region puts a word below its body that is to leave the region again. So there is a closing
word in the code for every region that is open, and when the code has come to its end all regions
are closed. Two built-in words can break this, because they take the next word of the code whatever
it is: one takes it as data, the other binds it anew.
-/

namespace Concatenative

/-- The word that is put below the body of a region to leave it. -/
def closingWord : Word := .atom Builtin.unprotect.name

/-- The dictionary gives the closing word its meaning. -/
def Dictionary.Closes (dictionary : Dictionary) : Prop :=
  dictionary.get? Builtin.unprotect.name = some (.primitive .unprotect)

/-- Going back to any of the snapshots leaves a closing word for each region around it. -/
def Snapshot.Accounted : List Snapshot → Prop
  | [] => True
  | snapshot :: outer =>
    outer.length ≤ snapshot.code.count closingWord ∧ snapshot.dictionary.Closes ∧ Accounted outer

namespace Machine

variable {σ : Type} {host : Host σ} {machine before after next : Machine σ}
variable {name : String} {rest : List Word}

/-- There is a closing word in the code for each region that is open, now and after going back to
any of the snapshots. -/
structure Accounted (machine : Machine σ) : Prop where
  /-- There are closing words for all regions. -/
  closing : machine.recovery.length ≤ machine.code.count closingWord
  /-- The closing word leaves a region. -/
  bound : machine.dictionary.Closes
  /-- The same holds of the snapshots. -/
  snapshots : Snapshot.Accounted machine.recovery

/-- The next step takes a closing word from the code: as data while a region is open, or as a name
to be bound anew. -/
def TakesClosing (machine : Machine σ) : Prop :=
  ∃ executed ∈ machine.executing?, executed.2.head? = some closingWord ∧
    (executed.1 = .quote ∧ machine.recovery ≠ [] ∨ executed.1 = .assign)

instance (machine : Machine σ) : Decidable machine.TakesClosing :=
  inferInstanceAs (Decidable (∃ _ ∈ machine.executing?, _))

/-! ## What keeps the account -/

/-- What neither takes code nor binds names nor manages regions keeps the account. -/
theorem Accounted.of_bounded
    {α : Type}
    {powers : Powers}
    {action : Action σ α}
    {value : α}
    (accounted : before.Accounted)
    (bounded : Action.Bounded powers action)
    (done : action before = .ok value after)
    (takes : powers.takes = false)
    (binds : powers.binds = false)
    (regional : powers.regional = false) :
    after.Accounted := by
  have bound := bounded.of_ok done
  have regions := bound.recovery regional
  refine ⟨?_, ?_, ?_⟩
  · rw [regions]
    exact Nat.le_trans accounted.closing ((bound.code takes regional).sublist.count_le closingWord)
  · rw [bound.dictionary binds]
    exact accounted.bound
  · rw [regions]
    exact accounted.snapshots

/-- What works on the data alone keeps the account. -/
theorem Accounted.of_tentative
    {α : Type}
    {action : Action σ α}
    {value : α}
    (accounted : before.Accounted)
    (tentative : Action.Tentative {} action)
    (done : action before = .ok value after) :
    after.Accounted :=
  accounted.of_bounded tentative.bounded done rfl rfl rfl

theorem Accounted.of_takeCode
    {word : Word}
    (accounted : before.Accounted)
    (taken : Action.takeCode before = .ok word after)
    (other : word ≠ closingWord) :
    after.Accounted := by
  obtain ⟨rest, code, rfl⟩ := Action.exists_cons_of_takeCode taken
  obtain ⟨closing, bound, snapshots⟩ := accounted
  rw [code, List.count_cons_of_ne other] at closing
  exact ⟨closing, bound, snapshots⟩

theorem halted_accounted (bound : machine.dictionary.Closes) : machine.halted.Accounted :=
  ⟨Nat.le_refl 0, bound, trivial⟩

/-- Leaving a region settles the account that is short of one closing word. -/
theorem leaveRegion_accounted
    (closing : before.recovery.length ≤ before.code.count closingWord + 1)
    (bound : before.dictionary.Closes)
    (snapshots : Snapshot.Accounted before.recovery)
    (done : Action.leaveRegion before = .ok () after) :
    after.Accounted := by
  cases done
  refine ⟨?_, bound, ?_⟩
  · change (before.recovery.drop 1).length ≤ before.code.count closingWord
    rw [List.length_drop]
    omega
  · change Snapshot.Accounted (before.recovery.drop 1)
    cases regions : before.recovery with
    | nil => trivial
    | cons snapshot outer =>
        rw [regions] at snapshots
        exact snapshots.2.2

/-! ## Built-in words -/

theorem prompt_accounted
    (accounted : before.Accounted)
    (done : Action.perform host .prompt before = .ok () after) :
    after.Accounted := by
  obtain ⟨word, popped, pop, done⟩ := Action.bind_eq_ok done
  obtain ⟨reply, asked, ask, done⟩ := Action.bind_eq_ok done
  have asks : Action.Concluding host {} (Action.prompt host word.intoString) := .prompt _
  have answered : asked.Accounted :=
    (accounted.of_tentative .pop pop).of_bounded asks.bounded ask rfl rfl rfl
  cases reply with
  | line text => exact answered.of_tentative (.push _) done
  | endOfInput =>
      obtain ⟨_, halted, ⟨⟩, push⟩ := Action.bind_eq_ok done
      exact (halted_accounted answered.bound).of_tentative (.push _) push
  | interrupted => cases done

/-- A name that is not that of the closing word can be bound. -/
theorem assign_accounted
    (accounted : before.Accounted)
    (other : before.code.head? ≠ some closingWord)
    (done : Action.perform host .assign before = .ok () after) :
    after.Accounted := by
  obtain ⟨word, taken, take, done⟩ := Action.bind_eq_ok done
  obtain ⟨name, read, reads, done⟩ := Action.bind_eq_ok done
  obtain ⟨value, popped, pop, ⟨⟩⟩ := Action.bind_eq_ok done
  obtain ⟨named, rfl⟩ := Action.eq_ok_of_ofExcept reads
  have otherWord : word ≠ closingWord := by
    obtain ⟨rest, code, -⟩ := Action.exists_cons_of_takeCode take
    rw [code, List.head?_cons] at other
    exact fun same => other (congrArg some same)
  have otherName : name ≠ Builtin.unprotect.name := by
    rintro rfl
    cases word with
    | atom name =>
        cases named
        exact otherWord rfl
    | int | hex | str | list | dict => cases named
  obtain ⟨closing, bound, snapshots⟩ :=
    (accounted.of_takeCode take otherWord).of_tentative .pop pop
  exact ⟨closing, (Record.get?_put_of_ne _ _ otherName).trans bound, snapshots⟩

theorem quote_accounted
    (accounted : before.Accounted)
    (other : before.code.head? ≠ some closingWord ∨ before.recovery = [])
    (done : Action.perform host .quote before = .ok () after) :
    after.Accounted := by
  obtain ⟨word, taken, take, push⟩ := Action.bind_eq_ok done
  refine Accounted.of_tentative ?_ (.push word) push
  obtain ⟨rest, code, rfl⟩ := Action.exists_cons_of_takeCode take
  obtain otherWord | outside := other
  · rw [code, List.head?_cons] at otherWord
    exact accounted.of_takeCode take fun same => otherWord (congrArg some same)
  · have closing : before.recovery.length ≤ rest.count closingWord := by
      rw [outside]
      exact Nat.zero_le _
    exact ⟨closing, accounted.bound, accounted.snapshots⟩

/-- An operation that is rearranged gives back all the words that it takes but the mark. -/
theorem arrange_accounted
    (accounted : before.Accounted)
    (done : Action.perform host .arrange before = .ok () after) :
    after.Accounted := by
  obtain ⟨right, first, takeRight, done⟩ := Action.bind_eq_ok done
  obtain ⟨operation, second, takeOperation, done⟩ := Action.bind_eq_ok done
  obtain ⟨left, third, takeLeft, done⟩ := Action.bind_eq_ok done
  obtain ⟨mark, fourth, takeMark, done⟩ := Action.bind_eq_ok done
  obtain ⟨afterRight, code, rfl⟩ := Action.exists_cons_of_takeCode takeRight
  obtain ⟨afterOperation, rfl, rfl⟩ := Action.exists_cons_of_takeCode takeOperation
  obtain ⟨afterLeft, rfl, rfl⟩ := Action.exists_cons_of_takeCode takeLeft
  obtain ⟨rest, rfl, rfl⟩ := Action.exists_cons_of_takeCode takeMark
  split at done
  · rename_i isMark
    cases done
    obtain ⟨closing, bound, snapshots⟩ := accounted
    refine ⟨?_, bound, snapshots⟩
    have rearranged : (right :: left :: operation :: rest).Perm
        (right :: operation :: left :: rest) := (List.Perm.swap ..).cons right
    rw [code, isMark] at closing
    change before.recovery.length ≤ (right :: left :: operation :: rest).count closingWord
    rw [rearranged.count_eq]
    simpa [List.count_cons, closingWord, Builtin.name] using closing
  · cases done

/-- A region that is opened comes with a closing word of its own. -/
theorem protect_accounted
    (accounted : before.Accounted)
    (done : Action.perform host .protect before = .ok () after) :
    after.Accounted := by
  obtain ⟨body, first, popBody, done⟩ := Action.bind_eq_ok done
  obtain ⟨handler, second, popHandler, done⟩ := Action.bind_eq_ok done
  have operands := (accounted.of_tentative (.popAs _) popBody).of_tentative (.popAs _) popHandler
  obtain ⟨_, _, ⟨⟩, done⟩ := Action.bind_eq_ok done
  obtain ⟨_, _, ⟨⟩, ⟨⟩⟩ := Action.bind_eq_ok done
  obtain ⟨closing, bound, snapshots⟩ := operands
  have handled : second.recovery.length ≤ (handler.reverse ++ second.code).count closingWord :=
    Nat.le_trans closing ((List.suffix_append ..).sublist.count_le _)
  refine ⟨?_, bound, handled, bound, snapshots⟩
  change second.recovery.length + 1 ≤
    (body.reverse ++ closingWord :: second.code).count closingWord
  rw [List.count_append, List.count_cons_self]
  omega

/-- A built-in word keeps the account if it does not take the closing word. -/
theorem perform_accounted
    (builtin : Builtin)
    (accounted : before.Accounted)
    (quoted : builtin = .quote →
      before.code.head? ≠ some closingWord ∨ before.recovery = [])
    (assigned : builtin = .assign → before.code.head? ≠ some closingWord)
    (done : Action.perform host builtin before = .ok () after) :
    after.Accounted := by
  cases builtin with
  | prompt => exact prompt_accounted accounted done
  | bye =>
      cases done
      exact halted_accounted accounted.bound
  | assign => exact assign_accounted accounted (assigned rfl) done
  | protect => exact protect_accounted accounted done
  | unprotect =>
      obtain ⟨closing, bound, snapshots⟩ := accounted
      exact leaveRegion_accounted (Nat.le_succ_of_le closing) bound snapshots done
  | quote => exact quote_accounted accounted (quoted rfl) done
  | arrange => exact arrange_accounted accounted done
  | _ => exact accounted.of_bounded (Action.perform_staged host _).bounded done rfl rfl rfl

/-! ## Steps and runs -/

/-- Executing the closing word takes it from the code and leaves a region. -/
theorem execute_closing_accounted
    (accounted : machine.Accounted)
    (next : machine.code = closingWord :: rest)
    (done : Action.execute host Builtin.unprotect.name
      (machine.begun Builtin.unprotect.name rest) = .ok () after) :
    after.Accounted := by
  obtain ⟨closing, bound, snapshots⟩ := accounted
  rw [execute_of_primitive bound] at done
  rw [next, List.count_cons_self] at closing
  refine leaveRegion_accounted ?_ ?_ ?_ done
  · rwa [recovery_begun, code_begun]
  · rwa [dictionary_begun]
  · rwa [recovery_begun]

theorem execute_other_accounted
    (accounted : machine.Accounted)
    (kept : ¬machine.TakesClosing)
    (other : name ≠ Builtin.unprotect.name)
    (next : machine.code = .atom name :: rest)
    (done : Action.execute host name (machine.begun name rest) = .ok () after) :
    after.Accounted := by
  have begun : (machine.begun name rest).Accounted := by
    obtain ⟨closing, bound, snapshots⟩ := accounted
    rw [next, List.count_cons_of_ne (by simpa [closingWord] using other)] at closing
    refine ⟨?_, ?_, ?_⟩
    · rwa [recovery_begun, code_begun]
    · rwa [dictionary_begun]
    · rwa [recovery_begun]
  cases meaning : machine.dictionary.get? name with
  | none =>
      have missing : (machine.begun name rest).dictionary.get? name = none := by
        rw [dictionary_begun, meaning]
      rw [Action.execute, Action.bind_of_error (Action.lookup_of_none missing)] at done
      cases done
  | some binding =>
      cases binding with
      | defined effect word =>
          rw [execute_of_defined meaning] at done
          have loads : Action.Tentative { loads := true, surveys := true }
              (Action.call effect word : Action σ Unit) := .call effect word rfl rfl
          exact begun.of_bounded loads.bounded done rfl rfl rfl
      | primitive builtin =>
          rw [execute_of_primitive meaning] at done
          have executing := executing?_of_primitive next meaning
          refine perform_accounted builtin begun ?_ ?_ done
          · rintro rfl
            rw [code_begun, recovery_begun]
            by_cases outside : machine.recovery = []
            · exact .inr outside
            · exact .inl fun taken => kept ⟨_, executing, taken, .inl ⟨rfl, outside⟩⟩
          · rintro rfl taken
            rw [code_begun] at taken
            exact kept ⟨_, executing, taken, .inr rfl⟩

/-- A step that does not take the closing word keeps the account. -/
theorem step_accounted
    (accounted : machine.Accounted)
    (kept : ¬machine.TakesClosing)
    (progress : machine.step host = .running next) :
    next.Accounted := by
  have takes := step_takes host machine
  rw [progress] at takes
  cases takes with
  | shifted word rest literal code =>
      obtain ⟨closing, bound, snapshots⟩ := accounted
      have other : word ≠ closingWord := literal Builtin.unprotect.name
      rw [code, List.count_cons_of_ne other] at closing
      exact ⟨closing, bound, snapshots⟩
  | executed name rest after code done =>
      by_cases closes : name = Builtin.unprotect.name
      · subst closes
        exact execute_closing_accounted accounted code done
      · exact execute_other_accounted accounted kept closes code done
  | recovered name rest error failed snapshot outer code failure regions =>
      rw [recovery_of_failure failure] at regions
      obtain ⟨restored, recovers, dictionary, -, restoredCode, recovery⟩ :=
        step_recovers code failure regions
      rw [progress] at recovers
      cases recovers
      have snapshots := accounted.snapshots
      rw [regions] at snapshots
      refine ⟨?_, ?_, ?_⟩
      · rw [recovery, restoredCode]
        exact snapshots.1
      · rw [dictionary]
        exact snapshots.2.1
      · rw [recovery]
        exact snapshots.2.2

theorem Advances.accounted
    {steps : Nat}
    (advances : Advances host steps before after)
    (accounted : before.Accounted)
    (kept : before.Throughout host fun state => ¬state.TakesClosing) :
    after.Accounted := by
  induction advances with
  | start => exact accounted
  | step progress _ inductionHypothesis =>
      exact inductionHypothesis (step_accounted accounted kept.here progress) (kept.later progress)

/-- When there is no code left, no region is open. -/
theorem Accounted.recovery_eq_nil
    (accounted : machine.Accounted)
    (done : machine.code = []) :
    machine.recovery = [] := by
  have closing := accounted.closing
  rw [done] at closing
  exact List.eq_nil_of_length_eq_zero (Nat.le_zero.mp closing)

/-- A machine that begins with the library closes all regions. If a text is evaluated on it without
fault, and no step takes the closing word as data or binds it anew, then no region is open at the
end. So a failure that follows is raised, and does not go back to a region of that evaluation. -/
theorem regions_closed_at_end
    {tracing : Bool}
    {world : σ}
    {text : String}
    {steps : Nat}
    {final : Machine σ}
    (finished : (Library.fresh host tracing world).evaluate host steps text = some (.ok () final))
    (kept : (Library.fresh host tracing world).ThroughoutEvaluation host text
      fun state => ¬state.TakesClosing) :
    final.recovery = [] ∧
      ∀ (later : Machine σ) (name : String) (rest : List Word) (error : EvalError)
        (failed : Machine σ),
        later.recovery = final.recovery →
        later.code = .atom name :: rest →
        Action.execute host name (later.begun name rest) = .error (.eval error) failed →
        ∃ raised,
          later.step host = .ended (.error (.eval error) raised) ∧ later.Untouched raised := by
  have closed : final.recovery = [] := by
    obtain ⟨log, begins⟩ := Library.fresh_eq host tracing world
    rcases evaluate_eq_some finished with ⟨error, -, ⟨⟩⟩ | ⟨words, parsed, ended⟩
    obtain ⟨count, last, advances, done⟩ := exists_advances_of_run ended
    obtain ⟨noCode, rfl⟩ := eq_commit_of_step_ended done
    refine (advances.accounted ?_ (kept words parsed)).recovery_eq_nil noCode
    rw [begins]
    exact ⟨Nat.zero_le _, rfl, trivial⟩
  refine ⟨closed, ?_⟩
  intro later name rest error failed regions next failure
  rw [closed] at regions
  exact ⟨_, step_withdraws regions next failure, withdrawn_untouched next⟩

/-- A region within a region, of which the inner one fails. -/
theorem regions_closed_at_end_nested :
    ∃ final,
      (Library.fresh Answer.host false {}).evaluate Answer.host 20
          "try \x7b try \x7b drop \x7d \x7b \x7d \x7d \x7b \x7d" = some (.ok () final) ∧
      final.data = [.str "drop error: stack underflow"] ∧
      final.recovery = [] := by
  have parsed : Source.parse "try \x7b try \x7b drop \x7d \x7b \x7d \x7d \x7b \x7d" =
      .ok [.atom "try", .list [.atom "try", .list [.atom "drop"], .list []], .list []] :=
    Source.parse_of_readTokens rfl
  obtain ⟨log, begins⟩ := Library.fresh_eq Answer.host false {}
  obtain ⟨final, finished, data⟩ : ∃ final,
      (Library.fresh Answer.host false {}).evaluate Answer.host 20
          "try \x7b try \x7b drop \x7d \x7b \x7d \x7d \x7b \x7d" = some (.ok () final) ∧
      final.data = [.str "drop error: stack underflow"] := by
    rw [evaluate_of_parse Answer.host 20 parsed, begins]
    exact ⟨_, rfl, rfl⟩
  refine ⟨final, finished, data, (regions_closed_at_end finished ?_).1⟩
  refine throughoutEvaluation_of_parse parsed ?_
  rw [begins]
  iterate 8 refine .of_running (of_decide_eq_true rfl) rfl ?_
  exact .of_ended (of_decide_eq_true rfl) rfl

/-- The text `try { quote } { }` leaves its region open: the closing word is taken as data. Then a
name that means nothing is not reported when the next text is evaluated. The machine goes back to
the region of the text before. -/
theorem region_left_open_by_quote :
    ∃ final later,
      (Library.fresh Answer.host false {}).evaluate Answer.host 10 "try \x7b quote \x7d \x7b \x7d" =
        some (.ok () final) ∧
      final.recovery ≠ [] ∧
      final.evaluate Answer.host 10 "foo" = some (.ok () later) ∧
      later.data = [.str "foo error: can't understand foo"] := by
  have first : Source.parse "try \x7b quote \x7d \x7b \x7d" =
      .ok [.atom "try", .list [.atom "quote"], .list []] := Source.parse_of_readTokens rfl
  have second : Source.parse "foo" = .ok [.atom "foo"] := Source.parse_of_readTokens rfl
  obtain ⟨log, begins⟩ := Library.fresh_eq Answer.host false {}
  simp only [begins, evaluate_of_parse Answer.host 10 first,
    evaluate_of_parse Answer.host 10 second]
  exact ⟨_, _, rfl, List.cons_ne_nil _ _, rfl, rfl⟩

end Machine
end Concatenative
