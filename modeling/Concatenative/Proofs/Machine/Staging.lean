import Concatenative.Machine.Run

/-!
# The two stages of an action

Executing an atom goes in two stages. The first only looks at the stacks and the dictionary and
changes the stacks in ways that the journal can take back; it may fail. The second may also change
the dictionary, the recovery stack and the world; the program cannot make it fail. The predicates of
this module say so about actions as they are written, and `execute_staged` says that every atom is
executed in that way. They also bound what an action has the power to do besides working at the top
of the data stack and calling the host, and `perform_staged` says which powers each built-in word
has. What the stages do to a machine is then proved once for each primitive action, not for each
built-in word.
-/

namespace Concatenative
namespace Action

variable {σ : Type} {α : Type}

/-! ## Sequences of actions -/

section Sequences

variable {β : Type} {first : Action σ α} {next : α → Action σ β} {machine : Machine σ}

theorem bind_of_ok
    {value : α}
    {middle : Machine σ}
    (done : first machine = .ok value middle) :
    (first >>= next) machine = next value middle := by
  simp only [Bind.bind, EStateM.bind, done]

theorem bind_of_error
    {fault : Fault}
    {failed : Machine σ}
    (failure : first machine = .error fault failed) :
    (first >>= next) machine = .error fault failed := by
  simp only [Bind.bind, EStateM.bind, failure]

/-- A sequence succeeds if both its parts do. -/
theorem bind_eq_ok
    {value : β}
    {after : Machine σ}
    (done : (first >>= next) machine = .ok value after) :
    ∃ early middle, first machine = .ok early middle ∧ next early middle = .ok value after := by
  cases result : first machine with
  | ok early middle =>
      rw [bind_of_ok result] at done
      exact ⟨early, middle, rfl, done⟩
  | error fault failed =>
      rw [bind_of_error result] at done
      cases done

/-- A sequence fails in its first part or in the next one. -/
theorem bind_eq_error
    {fault : Fault}
    {failed : Machine σ}
    (failure : (first >>= next) machine = .error fault failed) :
    first machine = .error fault failed ∨
      ∃ value middle,
        first machine = .ok value middle ∧ next value middle = .error fault failed := by
  cases result : first machine with
  | ok value middle =>
      rw [bind_of_ok result] at failure
      exact Or.inr ⟨value, middle, rfl, failure⟩
  | error early after =>
      rw [bind_of_error result] at failure
      injection failure with faults machines
      exact Or.inl (by rw [faults, machines])

end Sequences

/-- The machine that an action leaves, whether it fails or not. -/
def leaves (action : Action σ α) (machine : Machine σ) : Machine σ :=
  match action machine with
  | .ok _ after => after
  | .error _ after => after

theorem leaves_of_ok
    {action : Action σ α}
    {machine after : Machine σ}
    {value : α}
    (done : action machine = .ok value after) :
    action.leaves machine = after := by
  simp only [leaves, done]

theorem leaves_of_error
    {action : Action σ α}
    {machine failed : Machine σ}
    {fault : Fault}
    (failure : action machine = .error fault failed) :
    action.leaves machine = failed := by
  simp only [leaves, failure]

/-- The machine that an action is given and the one that it leaves are in a relation. -/
def Relates (relation : Machine σ → Machine σ → Prop) (action : Action σ α) : Prop :=
  ∀ machine, relation machine (action.leaves machine)

/-- A sequence relates machines as its first part does, or as both parts do one after the other. -/
theorem Relates.compose
    {β : Type}
    {firstRelation nextRelation relation : Machine σ → Machine σ → Prop}
    {first : Action σ α}
    {next : α → Action σ β}
    (early : ∀ before after, firstRelation before after → relation before after)
    (composed : ∀ before middle after,
      firstRelation before middle → nextRelation middle after → relation before after)
    (firstRelates : Relates firstRelation first)
    (nextRelates : ∀ value, Relates nextRelation (next value)) :
    Relates relation (first >>= next) := by
  intro machine
  have earlier := firstRelates machine
  cases result : first machine with
  | ok value middle =>
      have later := nextRelates value middle
      rw [leaves_of_ok result] at earlier
      simp only [leaves, bind_of_ok result]
      exact composed _ _ _ earlier later
  | error fault failed =>
      rw [leaves_of_error result] at earlier
      rw [leaves_of_error (bind_of_error result)]
      exact early _ _ earlier

/-- A sequence keeps what both its parts keep. -/
theorem Relates.bind
    {β : Type}
    {relation : Machine σ → Machine σ → Prop}
    {first : Action σ α}
    {next : α → Action σ β}
    (transitive : ∀ before middle after,
      relation before middle → relation middle after → relation before after)
    (firstRelates : Relates relation first)
    (nextRelates : ∀ value, Relates relation (next value)) :
    Relates relation (first >>= next) :=
  .compose (fun _ _ earlier => earlier) transitive firstRelates nextRelates

/-! ## Names and operands -/

theorem get_ok (machine : Machine σ) :
    (get : Action σ (Machine σ)) machine = .ok machine machine := rfl

theorem lookup_of_some
    {name : String}
    {machine : Machine σ}
    {binding : Binding}
    (found : machine.dictionary.get? name = some binding) :
    lookup name machine = .ok binding machine := by
  rw [lookup, bind_of_ok (get_ok machine), found]
  rfl

theorem lookup_of_none
    {name : String}
    {machine : Machine σ}
    (missing : machine.dictionary.get? name = none) :
    lookup name machine = .error (.eval (.unknown name)) machine := by
  rw [lookup, bind_of_ok (get_ok machine), missing]
  rfl

theorem pop_of_cons
    {machine : Machine σ}
    {word : Word}
    {rest : List Word}
    (data : machine.data = word :: rest) :
    pop machine =
      .ok word { machine with data := rest, journal := .popped word :: machine.journal } := by
  simp only [pop, ofStacks, Stacks.pop?, data]

theorem takeCode_of_cons
    {machine : Machine σ}
    {word : Word}
    {rest : List Word}
    (code : machine.code = word :: rest) :
    takeCode machine =
      .ok word { machine with code := rest, journal := .taken word :: machine.journal } := by
  simp only [takeCode, ofStacks, Stacks.take?, code]

theorem exists_cons_of_pop
    {machine after : Machine σ}
    {word : Word}
    (popped : pop machine = .ok word after) :
    ∃ rest,
      machine.data = word :: rest ∧
        after = { machine with data := rest, journal := .popped word :: machine.journal } := by
  cases data : machine.data with
  | nil => simp only [pop, ofStacks, Stacks.pop?, data, reduceCtorEq] at popped
  | cons top rest =>
      rw [pop_of_cons data] at popped
      cases popped
      exact ⟨rest, rfl, rfl⟩

theorem exists_cons_of_takeCode
    {machine after : Machine σ}
    {word : Word}
    (taken : takeCode machine = .ok word after) :
    ∃ rest,
      machine.code = word :: rest ∧
        after = { machine with code := rest, journal := .taken word :: machine.journal } := by
  cases code : machine.code with
  | nil => simp only [takeCode, ofStacks, Stacks.take?, code, reduceCtorEq] at taken
  | cons next rest =>
      rw [takeCode_of_cons code] at taken
      cases taken
      exact ⟨rest, rfl, rfl⟩

/-- An operand that was read is what a word stands for, and nothing else has happened. -/
theorem eq_ok_of_ofExcept
    {result : Except EvalError α}
    {machine after : Machine σ}
    {value : α}
    (read : ofExcept result machine = .ok value after) :
    result = .ok value ∧ after = machine := by
  cases result with
  | error error => cases read
  | ok found =>
      cases read
      exact ⟨rfl, rfl⟩

theorem popAs_of_cons
    {read : Word → Except EvalError α}
    {machine : Machine σ}
    {word : Word}
    {rest : List Word}
    {value : α}
    (data : machine.data = word :: rest)
    (fits : read word = .ok value) :
    popAs read machine =
      .ok value { machine with data := rest, journal := .popped word :: machine.journal } := by
  rw [popAs, bind_of_ok (pop_of_cons data), fits]
  rfl

/-! ## Questions to the host -/

theorem ofHost_leaves
    (attempt : String)
    (answer : Except HostError String)
    (machine : Machine σ) :
    (ofHost attempt answer).leaves machine = machine := by
  cases answer with
  | ok text => rfl
  | error cause => cases cause <;> rfl

theorem load_leaves (host : Host σ) (path : String) (machine : Machine σ) :
    (load host path).leaves machine =
      { machine with
        log := .load path :: machine.log
        world := (host.load path machine.world).2 } :=
  ofHost_leaves _ _ _

theorem command_leaves
    (host : Host σ)
    (name : String)
    (args : List String)
    (machine : Machine σ) :
    (command host name args).leaves machine =
      { machine with
        log := .command name args :: machine.log
        world := (host.command name args machine.world).2 } :=
  ofHost_leaves _ _ _

end Action

/-! ## Faults and powers -/

/-- The fault comes from a run itself: the user did not interrupt it, and there was a program to
run. -/
def Fault.isInternal : Fault → Bool
  | .flawed _ => false
  | .interrupted => false
  | _ => true

/-- What an action may do besides working at the top of the data stack and calling the host. -/
structure Powers where
  /-- Take words from the code stack. -/
  takes : Bool := false
  /-- Add words to the code stack. -/
  loads : Bool := false
  /-- Look at the whole code stack. -/
  looks : Bool := false
  /-- Reach for more of the data stack than the words that are popped from it. -/
  surveys : Bool := false
  /-- Bind names. -/
  binds : Bool := false
  /-- Open or close protected regions. -/
  regional : Bool := false
  /-- Give in to an interrupt. -/
  yields : Bool := false

/-- All powers. -/
def Powers.all : Powers := ⟨true, true, true, true, true, true, true⟩

namespace Action

variable {σ : Type} {α : Type}

/-! ## The stages -/

/-- Look at the data stack. -/
def dataStack : Action σ (List Word) :=
  fun machine => .ok machine.data machine

theorem dataStack_ok (machine : Machine σ) :
    dataStack machine = .ok machine.data machine := rfl

/-- Look at the code stack. -/
def codeStack : Action σ (List Word) :=
  fun machine => .ok machine.code machine

/-- The action belongs to the first stage: it changes the stacks alone, and the journal tells how to
take its changes back. -/
inductive Tentative (powers : Powers) : {α : Type} → Action σ α → Prop where
  | pure {α : Type} (value : α) : Tentative powers (pure value)
  | throw {α : Type} (fault : Fault) (internal : fault.isInternal = true) :
      Tentative powers (throw fault : Action σ α)
  | dataStack (allowed : powers.surveys = true) : Tentative powers dataStack
  | lookup (name : String) : Tentative powers (lookup name)
  | pop : Tentative powers pop
  | takeCode (allowed : powers.takes = true) : Tentative powers takeCode
  | push (word : Word) : Tentative powers (push word)
  | putCode (word : Word) (allowed : powers.loads = true) : Tentative powers (putCode word)
  | loadCode (words : List Word) (allowed : powers.loads = true) :
      Tentative powers (loadCode words)
  | clearData (allowed : powers.surveys = true) : Tentative powers clearData
  | bind {α β : Type} {first : Action σ α} {next : α → Action σ β} :
      Tentative powers first → (∀ value, Tentative powers (next value)) →
      Tentative powers (first >>= next)

/-- The action belongs to the second stage: whatever it changes, it does not fail because of the
program. -/
inductive Concluding (host : Host σ) (powers : Powers) : {α : Type} → Action σ α → Prop where
  | pure {α : Type} (value : α) : Concluding host powers (pure value)
  | interrupt {α : Type} (allowed : powers.yields = true) :
      Concluding host powers (throw .interrupted : Action σ α)
  | codeStack (allowed : powers.looks = true) : Concluding host powers codeStack
  | push (word : Word) : Concluding host powers (push word)
  | putCode (word : Word) (allowed : powers.loads = true) : Concluding host powers (putCode word)
  | loadCode (words : List Word) (allowed : powers.loads = true) :
      Concluding host powers (loadCode words)
  | define (name : String) (word : Word) (allowed : powers.binds = true) :
      Concluding host powers (define name word)
  | halt (allowed : powers.regional = true) : Concluding host powers halt
  | enterRegion (handler : List Word) (allowed : powers.regional = true)
      (copied : powers.surveys = true) :
      Concluding host powers (enterRegion handler)
  | leaveRegion (allowed : powers.regional = true) : Concluding host powers leaveRegion
  | echo (text : String) : Concluding host powers (echo host text)
  | prompt (text : String) : Concluding host powers (prompt host text)
  | load (path : String) : Concluding host powers (load host path)
  | command (name : String) (args : List String) :
      Concluding host powers (command host name args)
  | bind {α β : Type} {first : Action σ α} {next : α → Action σ β} :
      Concluding host powers first → (∀ value, Concluding host powers (next value)) →
      Concluding host powers (first >>= next)

/-- The action is made of a first stage and a second one. Moving an entry of the data stack is
neither: it fails only before it has changed anything, but the journal does not always tell the
place of an entry that was addressed from the bottom. -/
inductive Staged (host : Host σ) (powers : Powers) : Action σ Unit → Prop where
  | tentative {action : Action σ Unit} : Tentative powers action → Staged host powers action
  | concluding {action : Action σ Unit} :
      Concluding host powers action → Staged host powers action
  | move (index : Int) (allowed : powers.surveys = true) :
      Staged host powers (removeAt index >>= push)
  | bind {α : Type} {first : Action σ α} {next : α → Action σ Unit} :
      Tentative powers first → (∀ value, Staged host powers (next value)) →
      Staged host powers (first >>= next)

/-! ## The first stage -/

namespace Tentative

variable {powers : Powers}

theorem ofExcept (result : Except EvalError α) :
    Tentative powers (ofExcept result : Action σ α) := by
  cases result with
  | ok value => exact .pure value
  | error error => exact .throw (.eval error) rfl

theorem popAs (read : Word → Except EvalError α) :
    Tentative powers (popAs read : Action σ α) :=
  .bind .pop fun word => .ofExcept (read word)

theorem combine (operation : Int → Int → Except EvalError Word) :
    Tentative powers (combine operation : Action σ Unit) := by
  refine .bind (.popAs _) fun left => .bind (.popAs _) fun right => ?_
  exact .bind (.ofExcept (operation left right)) fun word => .push word

theorem split (parts : List Word → Option (List Word × Word)) :
    Tentative powers (split parts : Action σ Unit) := by
  refine .bind (.popAs _) fun items => ?_
  cases parts items with
  | none => exact .throw (.eval .emptyList) rfl
  | some both => exact .bind (.push _) fun _ => .push both.2

theorem pushEach (words : List Word) :
    Tentative powers (pushEach words : Action σ Unit) := by
  induction words with
  | nil => exact .pure ()
  | cons word rest inductionHypothesis =>
      exact .bind (.push word) fun _ => inductionHypothesis

theorem bindEach (values : Record Word) (names : List Word) :
    Tentative powers (bindEach values names : Action σ (Record Word)) := by
  induction names generalizing values with
  | nil => exact .pure values
  | cons name rest inductionHypothesis =>
      refine .bind .pop fun value => .bind (.ofExcept _) fun name => ?_
      exact inductionHypothesis (values.put name value)

theorem parseText (text : String) :
    Tentative powers (parseText text : Action σ (List Word)) := by
  unfold Action.parseText
  cases Source.parse text with
  | ok words => exact .pure words
  | error error =>
      cases error with
      | flawed error => exact .throw (.eval (.badParse error)) rfl
      | oversized digits => exact .throw (.oversized digits) rfl

theorem failAt (index : Int) :
    Tentative powers (failAt index : Action σ α) := by
  unfold Action.failAt
  by_cases fromTop : 0 ≤ index
  · rw [if_pos fromTop]
    exact .throw (.eval .stackUnderflow) rfl
  · rw [if_neg fromTop]
    exact .throw (.badIndex index) rfl

theorem entry (index : Int) (allowed : powers.surveys = true) :
    Tentative powers (entry index : Action σ Word) := by
  have same : (Action.entry index : Action σ Word) =
      Action.dataStack >>= fun data =>
        (wordAt? index data).elim (Action.failAt index) Pure.pure := by
    funext machine
    rw [Action.entry, bind_of_ok (get_ok machine), bind_of_ok (dataStack_ok machine),
      Stacks.entry?]
    cases wordAt? index machine.data <;> rfl
  rw [same]
  refine .bind (.dataStack allowed) fun data => ?_
  cases wordAt? index data with
  | none => exact .failAt index
  | some word => exact .pure word

/-- What comes first in the call of a definition may refuse it. -/
theorem guarded
    (effect : Effect)
    {start : Action σ Unit}
    (allowed : powers.surveys = true)
    (started : Tentative powers start) :
    Tentative powers (Action.dataStack >>= fun data =>
      if effect.exact && data.length < effect.input then
        (Action.fail .stackUnderflow : Action σ PUnit) >>= fun _ => start
      else start) := by
  refine .bind (.dataStack allowed) fun data => ?_
  split
  · exact .bind (.throw _ rfl) fun _ => started
  · exact started

/-- A definition is refused, or its words are put on the code stack. -/
theorem call
    (effect : Effect)
    (word : Word)
    (surveys : powers.surveys = true)
    (loads : powers.loads = true) :
    Tentative powers (call effect word : Action σ Unit) := by
  cases word with
  | list body => exact guarded effect surveys (.loadCode body loads)
  | atom name => exact guarded effect surveys (.putCode (.atom name) loads)
  | int value => exact guarded effect surveys (.putCode (.int value) loads)
  | hex value => exact guarded effect surveys (.putCode (.hex value) loads)
  | str text => exact guarded effect surveys (.putCode (.str text) loads)
  | dict entries => exact guarded effect surveys (.putCode (.dict entries) loads)

/-- Nothing forbids an action to leave its powers unused. -/
theorem allowAll
    {action : Action σ α}
    (tentative : Tentative powers action) :
    Tentative .all action := by
  induction tentative with
  | throw fault internal => exact .throw fault internal
  | dataStack => exact .dataStack rfl
  | clearData => exact .clearData rfl
  | takeCode => exact .takeCode rfl
  | putCode word => exact .putCode word rfl
  | loadCode words => exact .loadCode words rfl
  | bind _ _ firstHypothesis nextHypothesis => exact .bind firstHypothesis nextHypothesis
  | pure | lookup | pop | push => constructor

end Tentative

/-! ## The second stage -/

namespace Concluding

variable {host : Host σ} {powers : Powers}

theorem echoEach (texts : List String) :
    Concluding host powers (echoEach host texts) := by
  induction texts with
  | nil => exact .pure ()
  | cons text rest inductionHypothesis =>
      exact .bind (.echo text) fun _ => inductionHypothesis

theorem allowAll
    {action : Action σ α}
    (concluding : Concluding host powers action) :
    Concluding host .all action := by
  induction concluding with
  | interrupt => exact .interrupt rfl
  | codeStack => exact .codeStack rfl
  | putCode word => exact .putCode word rfl
  | loadCode words => exact .loadCode words rfl
  | define name word => exact .define name word rfl
  | halt => exact .halt rfl
  | enterRegion handler => exact .enterRegion handler rfl rfl
  | leaveRegion => exact .leaveRegion rfl
  | bind _ _ firstHypothesis nextHypothesis => exact .bind firstHypothesis nextHypothesis
  | pure | push | echo | prompt | load | command => constructor

end Concluding

end Action

/-- The powers of a built-in word. -/
def Builtin.powers : Builtin → Powers
  | .capture => { surveys := true }
  | .pick => { surveys := true }
  | .roll => { surveys := true }
  | .clear => { surveys := true }
  | .prompt => { regional := true, yields := true }
  | .bye => { regional := true }
  | .assign => { takes := true, binds := true }
  | .eval => { loads := true }
  | .branch => { loads := true }
  | .protect => { loads := true, surveys := true, regional := true }
  | .unprotect => { regional := true }
  | .quote => { takes := true }
  | .arrange => { takes := true, loads := true }
  | .debug => { looks := true }
  | _ => {}

namespace Action

/-! ## Both stages -/

/-- Every built-in word gathers its operands before it touches anything but the stacks. -/
theorem perform_staged (host : Host σ) (builtin : Builtin) :
    Staged host builtin.powers (perform host builtin) := by
  cases builtin with
  | length => exact .tentative (.bind (.popAs _) fun _ => .push _)
  | append => exact .tentative (.bind (.popAs _) fun _ => .bind (.popAs _) fun _ => .push _)
  | pushBack => exact .tentative (.bind .pop fun _ => .bind (.popAs _) fun _ => .push _)
  | popBack => exact .tentative (.split _)
  | popFront => exact .tentative (.split _)
  | pushFront => exact .tentative (.bind .pop fun _ => .bind (.popAs _) fun _ => .push _)
  | explode => exact .tentative (.bind (.popAs _) fun _ => .pushEach _)
  | capture =>
      change Staged host { surveys := true } (dataStack >>= fun data => push (.list data))
      exact .tentative (.bind (.dataStack rfl) fun _ => .push _)
  | flatten => exact .tentative (.bind .pop fun _ => .bind .pop fun _ => .push _)
  | concat => exact .tentative (.bind .pop fun _ => .bind .pop fun _ => .push _)
  | lines => exact .tentative (.bind (.popAs _) fun _ => .push _)
  | parse => exact .tentative (.bind (.popAs _) fun _ => .bind (.parseText _) fun _ => .push _)
  | echo => exact .bind .pop fun _ => .concluding (.echo _)
  | prompt =>
      refine .bind .pop fun _ => .concluding (.bind (.prompt _) fun reply => ?_)
      cases reply with
      | line text => exact .push (.str text)
      | endOfInput => exact .bind (.halt rfl) fun _ => .push (.str "")
      | interrupted => exact .interrupt rfl
  | command =>
      refine .bind .pop fun _ => .bind .pop fun _ => .bind (.ofExcept _) fun _ => ?_
      exact .concluding (.bind (.command _ _) fun _ => .push _)
  | load => exact .bind (.popAs _) fun _ => .concluding (.bind (.load _) fun _ => .push _)
  | pick => exact .tentative (.bind (.popAs _) fun _ => .bind (.entry _ rfl) fun _ => .push _)
  | roll => exact .bind (.popAs _) fun index => .move index rfl
  | drop => exact .tentative (.bind .pop fun _ => .pure ())
  | clear => exact .tentative (.clearData rfl)
  | hex => exact .tentative (.bind (.popAs _) fun _ => .push _)
  | int => exact .tentative (.bind (.popAs _) fun _ => .push _)
  | add => exact .tentative (.combine _)
  | sub => exact .tentative (.combine _)
  | mul => exact .tentative (.combine _)
  | div => exact .tentative (.combine _)
  | neg => exact .tentative (.bind (.popAs _) fun _ => .push _)
  | equal => exact .tentative (.bind .pop fun _ => .bind .pop fun _ => .push _)
  | less => exact .tentative (.combine _)
  | greater => exact .tentative (.combine _)
  | dict => exact .tentative (.bind (.popAs _) fun _ => .bind (.ofExcept _) fun _ => .push _)
  | get =>
      refine .bind (.popAs _) fun entries => .bind (.popAs _) fun name => .tentative ?_
      cases Record.get? entries name with
      | none => exact .throw _ rfl
      | some value => exact .push value
  | put =>
      refine .bind (.popAs _) fun _ => .bind (.popAs _) fun _ => .tentative ?_
      exact .bind .pop fun _ => .push _
  | keys => exact .tentative (.bind (.popAs _) fun _ => .push _)
  | bye => exact .concluding (.halt rfl)
  | assign =>
      refine .bind (.takeCode rfl) fun _ => .bind (.ofExcept _) fun name => ?_
      exact .bind .pop fun value => .concluding (.define name value rfl)
  | eval =>
      refine .bind .pop fun word => .tentative ?_
      cases word with
      | list items => exact .loadCode items rfl
      | atom name => exact .push (.atom name)
      | int value => exact .push (.int value)
      | hex value => exact .push (.hex value)
      | str text => exact .push (.str text)
      | dict entries => exact .push (.dict entries)
  | expand =>
      refine .bind (.popAs _) fun _ => .bind .pop fun _ => .tentative ?_
      exact .bind (.bindEach _ _) fun _ => .push _
  | branch =>
      refine .bind (.popAs _) fun _ => .bind (.popAs _) fun _ => .tentative ?_
      exact .bind (.popAs _) fun _ => .loadCode _ rfl
  | protect =>
      refine .bind (.popAs _) fun body => .bind (.popAs _) fun handler => .concluding ?_
      refine .bind (.enterRegion handler rfl rfl) fun _ => .bind (.putCode _ rfl) fun _ => ?_
      exact .loadCode body rfl
  | unprotect => exact .concluding (.leaveRegion rfl)
  | quote => exact .tentative (.bind (.takeCode rfl) fun _ => .push _)
  | arrange =>
      refine .bind (.takeCode rfl) fun _ => .bind (.takeCode rfl) fun _ => ?_
      refine .bind (.takeCode rfl) fun _ => .bind (.takeCode rfl) fun mark => .tentative ?_
      split
      · exact .loadCode _ rfl
      · exact .throw _ rfl
  | debug =>
      change Staged host { looks := true } (codeStack >>= fun code =>
        echoEach host (code.map (Word.pretty 0)))
      exact .concluding (.bind (.codeStack rfl) fun _ => .echoEach _)
  | inspect =>
      refine .bind (.popAs _) fun name => .bind (.lookup name) fun binding => ?_
      exact .concluding (.echoEach _)

theorem Staged.allowAll
    {host : Host σ}
    {powers : Powers}
    {action : Action σ Unit}
    (staged : Staged host powers action) :
    Staged host .all action := by
  induction staged with
  | tentative tentative => exact .tentative tentative.allowAll
  | concluding concluding => exact .concluding concluding.allowAll
  | move index => exact .move index rfl
  | bind tentative _ inductionHypothesis => exact .bind tentative.allowAll inductionHypothesis

/-- Every name is executed in two stages, whatever it is bound to. -/
theorem execute_staged (host : Host σ) (name : String) :
    Staged host .all (execute host name) := by
  refine .bind (.lookup name) fun binding => ?_
  cases binding with
  | primitive builtin => exact (perform_staged host builtin).allowAll
  | defined effect word => exact .tentative (.call effect word rfl rfl)

end Action
end Concatenative
