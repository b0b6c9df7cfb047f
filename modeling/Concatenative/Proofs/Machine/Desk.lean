import Concatenative.Proofs.Machine.Mirroring

/-!
# Steps at a desk

What a machine works with at the moment is laid out as on a desk: the data, the meanings of names
and the state of the host. The lemmas of this module say where a machine at a desk is led by one
word, whatever its journal holds and whether it traces or not. What a piece of code does is put
together from them.
-/

namespace Concatenative

/-- What lies on the desk of a user between two lines. -/
structure Desk (σ : Type) where
  /-- The data stack, top first. -/
  data : List Word
  /-- The meanings of names. -/
  dictionary : Dictionary
  /-- The state of the host. -/
  world : σ

/-- What a machine leaves on the desk. -/
def Machine.desk {σ : Type} (machine : Machine σ) : Desk σ :=
  ⟨machine.data, machine.dictionary, machine.world⟩

/-- A machine at the desk with code to execute, regions that are open and a log. -/
def Desk.machine
    {σ : Type}
    (code : List Word)
    (recovery : List Snapshot)
    (log : List Event)
    (desk : Desk σ) :
    Machine σ where
  data := desk.data
  code := code
  dictionary := desk.dictionary
  recovery := recovery
  world := desk.world
  log := log

namespace Action

variable {σ : Type} {host : Host σ} {before : Machine σ} {rest : List Word}

/-- Names are bound to the words that lie on the data stack, the first one to the top. -/
theorem bindEach_of_data
    (values : Record Word)
    (pairs : List (String × Word))
    (data : before.data = pairs.map Prod.snd ++ rest) :
    ∃ journal,
      bindEach values (pairs.map fun pair => .atom pair.1) before =
        .ok (pairs.foldl (fun record (name, value) => record.put name value) values)
          { before with data := rest, journal } := by
  induction pairs generalizing values before with
  | nil =>
      obtain ⟨⟨_, code, journal⟩, dictionary, recovery, tracing, world, log⟩ := before
      cases data
      exact ⟨journal, rfl⟩
  | cons pair later inductionHypothesis =>
      obtain ⟨name, value⟩ := pair
      let popped : Machine σ :=
        { before with
          data := later.map Prod.snd ++ rest
          journal := .popped value :: before.journal }
      have pop : pop before = .ok value popped := pop_of_cons data
      have remaining : popped.data = later.map Prod.snd ++ rest := rfl
      obtain ⟨journal, bound⟩ := inductionHypothesis (values.put name value) remaining
      exact ⟨journal, (bind_of_ok pop).trans bound⟩

/-- A template is filled with the words that lie below it on the data stack. -/
theorem perform_expand
    {template : Word}
    (host : Host σ)
    (pairs : List (String × Word))
    (data : before.data =
      .list (pairs.map fun pair => .atom pair.1) :: template :: (pairs.map Prod.snd ++ rest)) :
    ∃ journal,
      perform host .expand before =
        .ok ()
          { before with data := template.expand (Record.ofPairs pairs) :: rest, journal } := by
  have names : popAs Word.asList before = .ok _ _ := popAs_of_cons data rfl
  let filling : Machine σ :=
    { before with
      data := pairs.map Prod.snd ++ rest
      journal := .popped template :: .popped (.list (pairs.map fun pair => .atom pair.1)) ::
        before.journal }
  have operands : filling.data = pairs.map Prod.snd ++ rest := rfl
  obtain ⟨journal, bound⟩ := bindEach_of_data [] pairs operands
  refine ⟨.pushed :: journal, ?_⟩
  refine (bind_of_ok names).trans ((bind_of_ok (pop_of_cons rfl)).trans ?_)
  exact (bind_of_ok bound).trans rfl

/-- The two words on top of the data stack are replaced by the result of an operation. -/
theorem combine_of_ok
    {operation : Int → Int → Except EvalError Word}
    {left right result : Word}
    {leftNumber rightNumber : Int}
    (data : before.data = left :: right :: rest)
    (leftRead : left.operand = .ok leftNumber)
    (rightRead : right.operand = .ok rightNumber)
    (computed : operation leftNumber rightNumber = .ok result) :
    combine operation before =
      .ok ()
        { before with
          data := result :: rest
          journal := .pushed :: .popped right :: .popped left :: before.journal } := by
  refine (bind_of_ok (popAs_of_cons data leftRead)).trans ?_
  refine (bind_of_ok (popAs_of_cons rfl rightRead)).trans ?_
  rw [computed]
  rfl

theorem combine_of_error
    {operation : Int → Int → Except EvalError Word}
    {left right : Word}
    {leftNumber rightNumber : Int}
    {error : EvalError}
    (data : before.data = left :: right :: rest)
    (leftRead : left.operand = .ok leftNumber)
    (rightRead : right.operand = .ok rightNumber)
    (refused : operation leftNumber rightNumber = .error error) :
    combine operation before =
      .error (.eval error)
        { before with
          data := rest
          journal := .popped right :: .popped left :: before.journal } := by
  refine (bind_of_ok (popAs_of_cons data leftRead)).trans ?_
  refine (bind_of_ok (popAs_of_cons rfl rightRead)).trans (bind_of_error ?_)
  rw [refused]
  rfl

/-- The pairs that a list of words writes become a dict. -/
theorem perform_dict
    (host : Host σ)
    {items : List Word}
    {entries : Record Word}
    (data : before.data = .list items :: rest)
    (written : entriesOf items = .ok entries) :
    perform host .dict before =
      .ok ()
        { before with
          data := .dict entries :: rest
          journal := .pushed :: .popped (.list items) :: before.journal } := by
  have read : popAs Word.asList before = .ok items _ := popAs_of_cons data rfl
  refine (bind_of_ok read).trans ?_
  rw [written]
  rfl

/-- The word at an index of the rest of the data stack is copied in the place of the index. -/
theorem perform_pick
    (host : Host σ)
    {index word : Word}
    {number : Int}
    (data : before.data = index :: rest)
    (read : index.intoHex = .ok number)
    (found : wordAt? number rest = some word) :
    ∃ journal,
      perform host .pick before = .ok () { before with data := word :: rest, journal } := by
  let popped : Machine σ :=
    { before with
      data := rest
      journal := .popped index :: before.journal }
  have entry : Action.entry number popped = .ok word popped := by
    rw [Action.entry, bind_of_ok (get_ok popped), Stacks.entry?, found]
    rfl
  refine ⟨.pushed :: popped.journal, ?_⟩
  exact (bind_of_ok (popAs_of_cons data read)).trans ((bind_of_ok entry).trans rfl)

/-- The word at an index of the rest of the data stack is moved to the place of the index. -/
theorem perform_roll
    (host : Host σ)
    {index word : Word}
    {number : Int}
    (data : before.data = index :: rest)
    (read : index.intoHex = .ok number)
    (found : wordAt? number rest = some word) :
    ∃ journal,
      perform host .roll before =
        .ok () { before with data := word :: without number rest, journal } := by
  let popped : Machine σ :=
    { before with
      data := rest
      journal := .popped index :: before.journal }
  let removed : Machine σ :=
    { popped with
      data := without number rest
      journal := .removed number word :: popped.journal }
  have remove : Action.removeAt number popped = .ok word removed := by
    simp only [Action.removeAt, Stacks.removeAt?, Stacks.entry?, popped, found]
    rfl
  refine ⟨.pushed :: removed.journal, ?_⟩
  exact (bind_of_ok (popAs_of_cons data read)).trans ((bind_of_ok remove).trans rfl)

end Action

namespace Machine

variable {σ : Type} {host : Host σ} {desk : Desk σ}
variable {data code : List Word} {dictionary : Dictionary} {world : σ}
variable {recovery : List Snapshot} {log : List Event} {name : String}

theorem leads_literal
    {word : Word}
    (literal : ∀ name, word ≠ .atom name) :
    Leads host (Desk.machine (word :: code) recovery log ⟨data, dictionary, world⟩)
      (Desk.machine code recovery log ⟨word :: data, dictionary, world⟩) :=
  .of_step (step_of_literal literal rfl) (.refl _)

theorem leads_list {items : List Word} :
    Leads host (Desk.machine (.list items :: code) recovery log ⟨data, dictionary, world⟩)
      (Desk.machine code recovery log ⟨.list items :: data, dictionary, world⟩) :=
  leads_literal (by simp)

/-- A definition leads to its body if the data stack is deep enough for it. -/
theorem leads_call_of_deep
    {effect : Effect}
    {body : List Word}
    (bound : dictionary.get? name = some (.defined effect (.list body)))
    (deep : effect.exact = true → effect.input ≤ data.length) :
    Leads host (Desk.machine (.atom name :: code) recovery log ⟨data, dictionary, world⟩)
      (Desk.machine (body.reverse ++ code) recovery log ⟨data, dictionary, world⟩) := by
  refine .of_step (step_of_call host rfl bound deep) ?_
  exact ⟨rfl, rfl, rfl, rfl, rfl, (List.append_nil _).symm⟩

theorem leads_call
    {effect : Effect}
    {body : List Word}
    (bound : dictionary.get? name = some (.defined effect (.list body)))
    (inexact : effect.exact = false) :
    Leads host (Desk.machine (.atom name :: code) recovery log ⟨data, dictionary, world⟩)
      (Desk.machine (body.reverse ++ code) recovery log ⟨data, dictionary, world⟩) :=
  leads_call_of_deep bound (by simp [inexact])

/-- A built-in word leads to what it leaves, whatever the journal says. -/
theorem leads_primitive
    {builtin : Builtin}
    {after : Machine σ}
    {journal : List Change}
    (bound : desk.dictionary.get? name = some (.primitive builtin))
    (done : Action.perform host builtin (desk.machine code recovery log) =
      .ok () { after with journal }) :
    Leads host (desk.machine (.atom name :: code) recovery log) after := by
  refine .of_step (step_of_perform_ok rfl bound done) ?_
  exact ⟨rfl, rfl, rfl, rfl, rfl, (List.append_nil _).symm⟩

theorem leads_eval
    {items : List Word}
    (bound : dictionary.get? name = some (.primitive .eval)) :
    Leads host
      (Desk.machine (.atom name :: code) recovery log ⟨.list items :: data, dictionary, world⟩)
      (Desk.machine (items.reverse ++ code) recovery log ⟨data, dictionary, world⟩) :=
  leads_primitive bound rfl

theorem leads_expand
    {template : Word}
    (pairs : List (String × Word))
    (bound : dictionary.get? name = some (.primitive .expand)) :
    Leads host
      (Desk.machine (.atom name :: code) recovery log
        ⟨.list (pairs.map fun pair => .atom pair.1) :: template :: (pairs.map Prod.snd ++ data),
          dictionary, world⟩)
      (Desk.machine code recovery log
        ⟨template.expand (Record.ofPairs pairs) :: data, dictionary, world⟩) := by
  let before : Machine σ := Desk.machine code recovery log
    ⟨.list (pairs.map fun pair => .atom pair.1) :: template :: (pairs.map Prod.snd ++ data),
      dictionary, world⟩
  have operands : before.data =
      .list (pairs.map fun pair => .atom pair.1) :: template :: (pairs.map Prod.snd ++ data) := rfl
  obtain ⟨journal, done⟩ := Action.perform_expand host pairs operands
  exact leads_primitive bound done

theorem leads_branch
    {flag : Bool}
    {consequent alternative : List Word}
    (bound : dictionary.get? name = some (.primitive .branch)) :
    Leads host
      (Desk.machine (.atom name :: code) recovery log
        ⟨.ofBool flag :: .list consequent :: .list alternative :: data, dictionary, world⟩)
      (Desk.machine ((if flag then consequent else alternative).reverse ++ code) recovery log
        ⟨data, dictionary, world⟩) := by
  cases flag <;> exact leads_primitive bound rfl

theorem leads_combine
    {builtin : Builtin}
    {operation : Int → Int → Except EvalError Word}
    {left right result : Word}
    {leftNumber rightNumber : Int}
    (bound : dictionary.get? name = some (.primitive builtin))
    (performs : Action.perform host builtin = Action.combine operation)
    (leftRead : left.operand = .ok leftNumber)
    (rightRead : right.operand = .ok rightNumber)
    (computed : operation leftNumber rightNumber = .ok result) :
    Leads host
      (Desk.machine (.atom name :: code) recovery log ⟨left :: right :: data, dictionary, world⟩)
      (Desk.machine code recovery log ⟨result :: data, dictionary, world⟩) :=
  leads_primitive bound (performs ▸ Action.combine_of_ok rfl leftRead rightRead computed)

/-- A copy of the word at an index comes to the top. -/
theorem leads_pick
    {index word : Word}
    {number : Int}
    (bound : dictionary.get? name = some (.primitive .pick))
    (read : index.intoHex = .ok number)
    (found : wordAt? number data = some word) :
    Leads host
      (Desk.machine (.atom name :: code) recovery log ⟨index :: data, dictionary, world⟩)
      (Desk.machine code recovery log ⟨word :: data, dictionary, world⟩) := by
  let before : Machine σ := Desk.machine code recovery log ⟨index :: data, dictionary, world⟩
  have indexed : before.data = index :: data := rfl
  obtain ⟨journal, done⟩ := Action.perform_pick host indexed read found
  exact leads_primitive bound done

/-- The word at an index comes to the top. -/
theorem leads_roll
    {index word : Word}
    {number : Int}
    (bound : dictionary.get? name = some (.primitive .roll))
    (read : index.intoHex = .ok number)
    (found : wordAt? number data = some word) :
    Leads host
      (Desk.machine (.atom name :: code) recovery log ⟨index :: data, dictionary, world⟩)
      (Desk.machine code recovery log ⟨word :: without number data, dictionary, world⟩) := by
  let before : Machine σ := Desk.machine code recovery log ⟨index :: data, dictionary, world⟩
  have indexed : before.data = index :: data := rfl
  obtain ⟨journal, done⟩ := Action.perform_roll host indexed read found
  exact leads_primitive bound done

theorem leads_dict
    {items : List Word}
    {entries : Record Word}
    (bound : dictionary.get? name = some (.primitive .dict))
    (written : Action.entriesOf items = .ok entries) :
    Leads host
      (Desk.machine (.atom name :: code) recovery log ⟨.list items :: data, dictionary, world⟩)
      (Desk.machine code recovery log ⟨.dict entries :: data, dictionary, world⟩) :=
  leads_primitive bound (Action.perform_dict host rfl written)

theorem leads_drop
    {word : Word}
    (bound : dictionary.get? name = some (.primitive .drop)) :
    Leads host
      (Desk.machine (.atom name :: code) recovery log ⟨word :: data, dictionary, world⟩)
      (Desk.machine code recovery log ⟨data, dictionary, world⟩) :=
  leads_primitive bound rfl

theorem leads_protect
    {body handler : List Word}
    (bound : dictionary.get? name = some (.primitive .protect)) :
    Leads host
      (Desk.machine (.atom name :: code) recovery log
        ⟨.list body :: .list handler :: data, dictionary, world⟩)
      (Desk.machine (body.reverse ++ .atom "popeh" :: code)
        (⟨dictionary, data, handler.reverse ++ code⟩ :: recovery) log ⟨data, dictionary, world⟩) :=
  leads_primitive bound rfl

theorem leads_unprotect
    {snapshot : Snapshot}
    (bound : desk.dictionary.get? name = some (.primitive .unprotect)) :
    Leads host (desk.machine (.atom name :: code) (snapshot :: recovery) log)
      (desk.machine code recovery log) :=
  leads_primitive bound rfl

theorem leads_echo
    {text : String}
    (bound : dictionary.get? name = some (.primitive .echo)) :
    Leads host
      (Desk.machine (.atom name :: code) recovery log ⟨.str text :: data, dictionary, world⟩)
      (Desk.machine code recovery (.echo text :: log) ⟨data, dictionary, host.echo text world⟩) :=
  leads_primitive bound rfl

theorem leads_prompt_line
    {text line : String}
    {next : σ}
    (bound : dictionary.get? name = some (.primitive .prompt))
    (answer : host.prompt text world = (.line line, next)) :
    Leads host
      (Desk.machine (.atom name :: code) recovery log ⟨.str text :: data, dictionary, world⟩)
      (Desk.machine code recovery (.prompt text :: log) ⟨.str line :: data, dictionary, next⟩) :=
  leads_primitive bound ((Action.perform_prompt rfl answer).trans rfl)

/-- A prompt at the end of the input leaves nothing to execute. -/
theorem leads_prompt_end
    {text : String}
    {next : σ}
    (bound : dictionary.get? name = some (.primitive .prompt))
    (answer : host.prompt text world = (.endOfInput, next)) :
    Leads host
      (Desk.machine (.atom name :: code) recovery log ⟨.str text :: data, dictionary, world⟩)
      (Desk.machine [] [] (.prompt text :: log) ⟨.str "" :: data, dictionary, next⟩) :=
  leads_primitive bound ((Action.perform_prompt rfl answer).trans rfl)

theorem leads_parse
    {text : String}
    {words : List Word}
    (bound : dictionary.get? name = some (.primitive .parse))
    (parsed : Source.parse text = .ok words) :
    Leads host
      (Desk.machine (.atom name :: code) recovery log ⟨.str text :: data, dictionary, world⟩)
      (Desk.machine code recovery log ⟨.list words :: data, dictionary, world⟩) :=
  leads_primitive bound (Action.perform_parse_of_ok rfl parsed)

/-- An atom that fails in a region leads back to the snapshot of the region. -/
theorem leads_failure
    {machine failed : Machine σ}
    {rest : List Word}
    {error : EvalError}
    {snapshot : Snapshot}
    {outer : List Snapshot}
    (next : machine.code = .atom name :: rest)
    (failure : Action.execute host name (machine.begun name rest) = .error (.eval error) failed)
    (regions : machine.recovery = snapshot :: outer) :
    Leads host machine
      (Desk.machine snapshot.code outer machine.log
        ⟨.str (diagnostic name error) :: snapshot.data, snapshot.dictionary, machine.world⟩) := by
  have frame := ((Action.execute_staged host name).rewinds failure).frame
  have innermost : failed.recovery = snapshot :: outer := by
    rw [frame, ← regions]
    exact recovery_begun
  refine .of_step (step_of_failure_inside next failure innermost) ?_
  refine ⟨data_recover .., code_recover .., dictionary_recover .., recovery_recover .., ?_, ?_⟩
  · rw [world_recover, frame]
    exact world_begun
  · rw [calls_recover, List.append_nil, frame]
    exact calls_begun

/-! ## One atom -/

variable {machine : Machine σ} {rest : List Word}

/-- The next word is an atom, and executing it leaves some data and changes nothing else. -/
def Leaves (host : Host σ) (machine : Machine σ) (data : List Word) : Prop :=
  ∃ name rest after,
    machine.code = .atom name :: rest ∧
    Action.execute host name (machine.begun name rest) = .ok () after ∧
    Untouched { machine with data, code := rest } after

/-- The next word is an atom, and executing it fails with an error. -/
def Raises (host : Host σ) (machine : Machine σ) (error : EvalError) : Prop :=
  ∃ name rest failed,
    machine.code = .atom name :: rest ∧
    Action.execute host name (machine.begun name rest) = .error (.eval error) failed

theorem leaves_of_perform
    {builtin : Builtin}
    {journal : List Change}
    (next : machine.code = .atom name :: rest)
    (bound : machine.dictionary.get? name = some (.primitive builtin))
    (done : Action.perform host builtin (machine.begun name rest) =
      .ok () { machine.begun name rest with data, journal }) :
    machine.Leaves host data := by
  refine ⟨name, rest, _, next, (execute_of_primitive bound).trans done, ?_⟩
  exact ⟨rfl, code_begun, dictionary_begun, recovery_begun, world_begun, calls_begun⟩

theorem raises_of_perform
    {builtin : Builtin}
    {error : EvalError}
    {failed : Machine σ}
    (next : machine.code = .atom name :: rest)
    (bound : machine.dictionary.get? name = some (.primitive builtin))
    (failure : Action.perform host builtin (machine.begun name rest) =
      .error (.eval error) failed) :
    machine.Raises host error :=
  ⟨name, rest, failed, next, (execute_of_primitive bound).trans failure⟩

/-- What an atom does is one of the two. -/
theorem Raises.not_leaves
    {error : EvalError}
    (raises : machine.Raises host error) :
    ¬ machine.Leaves host data := by
  obtain ⟨name, rest, failed, next, failure⟩ := raises
  rintro ⟨sameName, sameRest, after, sameNext, done, -⟩
  rw [next] at sameNext
  cases sameNext
  rw [failure] at done
  cases done

/-- Outside all protected regions the error ends the run, and the machine stays as it was. -/
theorem Raises.exists_untouched
    {error : EvalError}
    (raises : machine.Raises host error)
    (unprotected : machine.recovery = []) :
    ∃ final,
      (∀ steps, run host (steps + 1) machine = some (.error (.eval error) final)) ∧
      machine.Untouched final := by
  obtain ⟨name, rest, failed, next, failure⟩ := raises
  exact ⟨machine.withdrawn name rest, run_of_ended (step_withdraws unprotected next failure),
    withdrawn_untouched next⟩

/-! ## From a desk to a machine -/

/-- A machine goes where a desk with its data and code leads, and changes nothing else. -/
theorem Leads.exists_untouched
    {laterData laterCode : List Word}
    (machine : Machine σ)
    (leads : Leads host
      (Desk.machine code machine.recovery machine.log ⟨data, machine.dictionary, machine.world⟩)
      (Desk.machine laterCode machine.recovery machine.log
        ⟨laterData, machine.dictionary, machine.world⟩))
    (atData : machine.data = data)
    (atCode : machine.code = code) :
    ∃ steps after,
      Advances host steps machine after ∧
      after.tracing = machine.tracing ∧
      Untouched { machine with data := laterData, code := laterCode } after := by
  have mirrors : (Desk.machine code machine.recovery machine.log
      ⟨data, machine.dictionary, machine.world⟩).Mirrors [] machine :=
    ⟨atData, atCode, rfl, rfl, rfl, (List.append_nil _).symm⟩
  obtain ⟨steps, after, advances, same⟩ := leads machine mirrors
  exact ⟨steps, after, advances, advances.tracing_eq, same.data, same.code, same.dictionary,
    same.recovery, same.world, same.calls.trans (List.append_nil _)⟩

/-- The machine gets to some data and some code, and nothing else is changed. -/
def Gets (host : Host σ) (machine : Machine σ) (data code : List Word) : Prop :=
  ∃ steps after,
    Advances host steps machine after ∧
    after.tracing = machine.tracing ∧
    Untouched { machine with data, code } after

theorem Leads.gets
    {laterData laterCode : List Word}
    {machine : Machine σ}
    (leads : Leads host
      (Desk.machine code machine.recovery machine.log ⟨data, machine.dictionary, machine.world⟩)
      (Desk.machine laterCode machine.recovery machine.log
        ⟨laterData, machine.dictionary, machine.world⟩))
    (atData : machine.data = data)
    (atCode : machine.code = code) :
    machine.Gets host laterData laterCode :=
  leads.exists_untouched machine atData atCode

/-- A machine with nothing to execute evaluates a text to a normal end if a desk with its data and
the words of the text leads to one without code. -/
theorem Leads.exists_evaluate
    {text : String}
    {words laterData : List Word}
    (machine : Machine σ)
    (leads : Leads host
      (Desk.machine words.reverse machine.recovery machine.log
        ⟨machine.data, machine.dictionary, machine.world⟩)
      (Desk.machine [] machine.recovery machine.log
        ⟨laterData, machine.dictionary, machine.world⟩))
    (parsed : Source.parse text = .ok words)
    (idle : machine.code = []) :
    ∃ steps after,
      machine.evaluate host steps text = some (.ok () after) ∧
      Untouched { machine with data := laterData } after := by
  let loaded : Machine σ := { machine with code := words.reverse ++ machine.code }
  have next : loaded.code = words.reverse := by
    change words.reverse ++ machine.code = words.reverse
    rw [idle, List.append_nil]
  obtain ⟨steps, after, advances, -, same⟩ := leads.exists_untouched loaded rfl next
  have finished := advances.run_eq_ended (step_of_no_code same.code)
  refine ⟨steps + 1, _, (evaluate_of_parse host _ parsed machine).trans finished, ?_⟩
  exact ⟨same.data, same.code.trans idle.symm, same.dictionary, same.recovery, same.world,
    same.calls⟩

end Machine
end Concatenative
