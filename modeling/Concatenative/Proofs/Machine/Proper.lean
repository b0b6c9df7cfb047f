import Concatenative.Proofs.Machine.Failure
import Concatenative.Proofs.Machine.Reachability
import Concatenative.Proofs.Word.Proper

/-!
# All words stay proper

Whatever sources are evaluated on a fresh machine, the words on its stacks, in its dictionary and in
its snapshots are proper in every state, and no bound name is empty. Each primitive action keeps
that and promises something about the value that it gives, and so does each built-in word. One word
needs help: the length of a list is an integer in range only if the list is not too long.
-/

namespace Concatenative

/-- The word of a definition is proper. -/
def Binding.Proper : Binding → Prop
  | .primitive _ => True
  | .defined _ word => word.Proper

/-- No name is empty, and the words of all definitions are proper. -/
def Dictionary.Proper (dictionary : Dictionary) : Prop :=
  ∀ entry ∈ dictionary, entry.1 ≠ "" ∧ entry.2.Proper

/-- All words of a snapshot are proper. -/
structure Snapshot.Proper (snapshot : Snapshot) : Prop where
  dictionary : snapshot.dictionary.Proper
  data : ∀ word ∈ snapshot.data, word.Proper
  code : ∀ word ∈ snapshot.code, word.Proper

/-- All words of a machine are proper: on the data stack, on the code stack, in the dictionary and
in the snapshots. -/
structure Machine.Proper {σ : Type} (machine : Machine σ) : Prop where
  dictionary : machine.dictionary.Proper
  data : ∀ word ∈ machine.data, word.Proper
  code : ∀ word ∈ machine.code, word.Proper
  recovery : ∀ snapshot ∈ machine.recovery, snapshot.Proper

theorem Dictionary.Proper.put
    {dictionary : Dictionary}
    {name : String}
    {binding : Binding}
    (proper : dictionary.Proper)
    (named : name ≠ "")
    (bindingProper : binding.Proper) :
    Dictionary.Proper (dictionary.put name binding) := by
  intro entry present
  rcases Record.eq_or_mem_of_mem_put present with rfl | old
  · exact ⟨named, bindingProper⟩
  · exact proper entry old

theorem mem_of_wordAt?
    {index : Int}
    {word : Word}
    {words : List Word}
    (found : wordAt? index words = some word) :
    word ∈ words := by
  cases index with
  | ofNat count => exact List.mem_of_getElem? found
  | negSucc count => exact List.mem_reverse.mp (List.mem_of_getElem? found)

theorem mem_of_mem_without
    {index : Int}
    {word : Word}
    {words : List Word}
    (present : word ∈ without index words) :
    word ∈ words := by
  cases index with
  | ofNat count => exact List.mem_of_mem_eraseIdx present
  | negSucc count =>
      exact List.mem_reverse.mp (List.mem_of_mem_eraseIdx (List.mem_reverse.mp present))

namespace Action

variable {σ : Type} {α : Type} {host : Host σ}

/-- What an action has led to is proper, and the value that it has given has a property. -/
def Good (property : α → Prop) : EStateM.Result Fault (Machine σ) α → Prop
  | .ok value after => after.Proper ∧ property value
  | .error _ failed => failed.Proper

/-- From a proper machine, an action leads to a proper one, whether it fails or not, and the value
that it gives has a property. -/
def Yields (property : α → Prop) (action : Action σ α) : Prop :=
  ∀ before, before.Proper → Good property (action before)

/-- An action keeps machines proper. -/
abbrev KeepsProper (action : Action σ α) : Prop :=
  Yields (fun _ => True) action

namespace Yields

variable {β : Type} {property : α → Prop} {word : Word}

theorem bind
    {further : β → Prop}
    {first : Action σ α}
    {next : α → Action σ β}
    (firstYields : Yields property first)
    (nextYields : ∀ value, property value → Yields further (next value)) :
    Yields further (first >>= next) := by
  intro before proper
  have early := firstYields before proper
  cases result : first before with
  | ok value middle =>
      rw [result] at early
      rw [bind_of_ok result]
      exact nextYields value early.2 middle early.1
  | error fault failed =>
      rw [result] at early
      rw [bind_of_error result]
      exact early

/-! ### Values -/

theorem pure {value : α} (holds : property value) : Yields property (pure value : Action σ α) :=
  fun _ proper => ⟨proper, holds⟩

theorem throw (fault : Fault) : Yields property (throw fault : Action σ α) :=
  fun _ proper => proper

theorem ofExcept
    {result : Except EvalError α}
    (holds : ∀ value, result = .ok value → property value) :
    Yields property (ofExcept result : Action σ α) := by
  cases result with
  | ok value => exact pure (holds value rfl)
  | error error => exact throw (.eval error)

theorem get : Yields Machine.Proper (MonadState.get : Action σ (Machine σ)) :=
  fun _ proper => ⟨proper, proper⟩

theorem lookup (name : String) : Yields Binding.Proper (lookup name : Action σ Binding) := by
  intro before proper
  cases found : before.dictionary.get? name with
  | none =>
      rw [lookup_of_none found]
      exact proper
  | some binding =>
      rw [lookup_of_some found]
      exact ⟨proper, (proper.dictionary _ (Record.mem_of_get? found)).2⟩

theorem parseText (text : String) :
    Yields (fun words => ∀ word ∈ words, word.Proper)
      (parseText text : Action σ (List Word)) := by
  unfold Action.parseText
  split
  · rename_i words parsed
    exact pure (Word.proper_of_parse parsed)
  · exact throw _
  · exact throw _

/-! ### Stacks -/

theorem pop : Yields Word.Proper (pop : Action σ Word) := by
  intro before proper
  cases data : before.data with
  | nil =>
      simp only [Action.pop, ofStacks, Stacks.pop?, data]
      exact proper
  | cons word rest =>
      have each := proper.data
      rw [data, List.forall_mem_cons] at each
      rw [pop_of_cons data]
      exact ⟨⟨proper.dictionary, each.2, proper.code, proper.recovery⟩, each.1⟩

theorem popAs
    {read : Word → Except EvalError α}
    (ensures : Word.Ensures read property) :
    Yields property (popAs read : Action σ α) :=
  pop.bind fun word proper => ofExcept fun value read => ensures word value proper read

theorem takeCode : Yields Word.Proper (takeCode : Action σ Word) := by
  intro before proper
  cases code : before.code with
  | nil =>
      simp only [Action.takeCode, ofStacks, Stacks.take?, code]
      exact proper
  | cons word rest =>
      have each := proper.code
      rw [code, List.forall_mem_cons] at each
      rw [takeCode_of_cons code]
      exact ⟨⟨proper.dictionary, proper.data, each.2, proper.recovery⟩, each.1⟩

theorem push (wordProper : word.Proper) : KeepsProper (push word : Action σ Unit) := by
  intro before proper
  refine ⟨⟨proper.dictionary, ?_, proper.code, proper.recovery⟩, trivial⟩
  exact List.forall_mem_cons.mpr ⟨wordProper, proper.data⟩

theorem putCode (wordProper : word.Proper) : KeepsProper (putCode word : Action σ Unit) := by
  intro before proper
  refine ⟨⟨proper.dictionary, proper.data, ?_, proper.recovery⟩, trivial⟩
  exact List.forall_mem_cons.mpr ⟨wordProper, proper.code⟩

theorem loadCode
    {words : List Word}
    (each : ∀ word ∈ words, word.Proper) :
    KeepsProper (loadCode words : Action σ Unit) := by
  intro before proper
  refine ⟨⟨proper.dictionary, proper.data, ?_, proper.recovery⟩, trivial⟩
  refine List.forall_mem_append.mpr ⟨?_, proper.code⟩
  exact fun word present => each word (List.mem_reverse.mp present)

theorem pushEach
    {words : List Word}
    (each : ∀ word ∈ words, word.Proper) :
    KeepsProper (pushEach words : Action σ Unit) := by
  induction words with
  | nil => exact pure trivial
  | cons word rest inductionHypothesis =>
      rw [List.forall_mem_cons] at each
      exact (push each.1).bind fun _ _ => inductionHypothesis each.2

theorem clearData : KeepsProper (clearData : Action σ Unit) := by
  intro before proper
  refine ⟨⟨proper.dictionary, ?_, proper.code, proper.recovery⟩, trivial⟩
  exact fun word present => absurd present List.not_mem_nil

theorem failAt (index : Int) : Yields property (failAt index : Action σ α) := by
  unfold Action.failAt
  split
  · exact throw _
  · exact throw _

theorem entry (index : Int) : Yields Word.Proper (entry index : Action σ Word) := by
  refine get.bind fun machine proper => ?_
  split
  · rename_i word found
    exact pure (proper.data word (mem_of_wordAt? found))
  · exact failAt index

theorem removeAt (index : Int) : Yields Word.Proper (removeAt index : Action σ Word) := by
  intro before proper
  cases found : wordAt? index before.data with
  | none =>
      simp only [Action.removeAt, Stacks.removeAt?, Stacks.entry?, found]
      exact failAt index before proper
  | some word =>
      simp only [Action.removeAt, Stacks.removeAt?, Stacks.entry?, found]
      refine ⟨⟨proper.dictionary, ?_, proper.code, proper.recovery⟩, ?_⟩
      · exact fun word present => proper.data word (mem_of_mem_without present)
      · exact proper.data word (mem_of_wordAt? found)

theorem bindEach
    {values : Record Word}
    (each : ∀ entry ∈ values, entry.2.Proper)
    (names : List Word) :
    Yields (fun values => ∀ entry ∈ values, entry.2.Proper)
      (bindEach values names : Action σ (Record Word)) := by
  induction names generalizing values with
  | nil => exact pure each
  | cons name rest inductionHypothesis =>
      refine pop.bind fun value proper => (ofExcept fun _ _ => trivial).bind fun name _ => ?_
      refine inductionHypothesis fun entry present => ?_
      rcases Record.eq_or_mem_of_mem_put present with rfl | old
      · exact proper
      · exact each entry old

/-! ### Dictionary, regions and host -/

theorem define
    {name : String}
    (named : name ≠ "")
    (wordProper : word.Proper) :
    KeepsProper (define name word : Action σ Unit) := by
  intro before proper
  exact ⟨⟨proper.dictionary.put named wordProper, proper.data, proper.code, proper.recovery⟩,
    trivial⟩

theorem halt : KeepsProper (halt : Action σ Unit) := by
  intro before proper
  refine ⟨⟨proper.dictionary, proper.data, ?_, ?_⟩, trivial⟩
  · exact fun word present => absurd present List.not_mem_nil
  · exact fun snapshot present => absurd present List.not_mem_nil

theorem enterRegion
    {handler : List Word}
    (each : ∀ word ∈ handler, word.Proper) :
    KeepsProper (enterRegion handler : Action σ Unit) := by
  intro before proper
  have code : ∀ word ∈ handler.reverse ++ before.code, word.Proper := by
    refine List.forall_mem_append.mpr ⟨?_, proper.code⟩
    exact fun word present => each word (List.mem_reverse.mp present)
  refine ⟨⟨proper.dictionary, proper.data, proper.code, ?_⟩, trivial⟩
  exact List.forall_mem_cons.mpr ⟨⟨proper.dictionary, proper.data, code⟩, proper.recovery⟩

theorem leaveRegion : KeepsProper (leaveRegion : Action σ Unit) := by
  intro before proper
  refine ⟨⟨proper.dictionary, proper.data, proper.code, ?_⟩, trivial⟩
  exact fun snapshot present => proper.recovery snapshot (List.mem_of_mem_drop present)

theorem echo (text : String) : KeepsProper (echo host text) :=
  fun _ proper => ⟨⟨proper.dictionary, proper.data, proper.code, proper.recovery⟩, trivial⟩

theorem echoEach (texts : List String) : KeepsProper (echoEach host texts) := by
  induction texts with
  | nil => exact pure trivial
  | cons text rest inductionHypothesis => exact (echo text).bind fun _ _ => inductionHypothesis

theorem prompt (text : String) : KeepsProper (prompt host text) :=
  fun _ proper => ⟨⟨proper.dictionary, proper.data, proper.code, proper.recovery⟩, trivial⟩

theorem ofHost (attempt : String) (answer : Except HostError String) :
    KeepsProper (ofHost attempt answer : Action σ String) := by
  cases answer with
  | ok text => exact pure trivial
  | error cause => cases cause <;> exact throw _

theorem load (path : String) : KeepsProper (load host path) :=
  fun _ proper => ofHost _ _ _ ⟨proper.dictionary, proper.data, proper.code, proper.recovery⟩

theorem command (name : String) (args : List String) : KeepsProper (command host name args) :=
  fun _ proper => ofHost _ _ _ ⟨proper.dictionary, proper.data, proper.code, proper.recovery⟩

/-! ### Built-in words -/

theorem combine
    {operation : Int → Int → Except EvalError Word}
    (proper : ∀ left right word, operation left right = .ok word → word.Proper) :
    KeepsProper (combine operation : Action σ Unit) := by
  refine (popAs (Word.ensures_true _)).bind fun left _ => ?_
  refine (popAs (Word.ensures_true _)).bind fun right _ => ?_
  exact (ofExcept (proper left right)).bind fun word wordProper => push wordProper

theorem split
    {parts : List Word → Option (List Word × Word)}
    (within : ∀ items rest item, parts items = some (rest, item) →
      (∀ word ∈ rest, word ∈ items) ∧ item ∈ items) :
    KeepsProper (split parts : Action σ Unit) := by
  refine (popAs Word.ensures_asList).bind fun items each => ?_
  cases found : parts items with
  | none => exact throw _
  | some both =>
      obtain ⟨rest, item⟩ := both
      obtain ⟨kept, present⟩ := within items rest item found
      refine (push (.list fun word inRest => each word (kept word inRest))).bind fun _ _ => ?_
      exact push (each item present)

end Yields

theorem within_of_lastApart
    {items rest : List Word}
    {item : Word}
    (parts : lastApart items = some (rest, item)) :
    (∀ word ∈ rest, word ∈ items) ∧ item ∈ items := by
  obtain ⟨last, found, same⟩ := Option.map_eq_some_iff.mp parts
  cases same
  exact ⟨fun word => (List.dropLast_sublist items).mem, List.mem_of_getLast? found⟩

theorem within_of_firstApart
    {items rest : List Word}
    {item : Word}
    (parts : firstApart items = some (rest, item)) :
    (∀ word ∈ rest, word ∈ items) ∧ item ∈ items := by
  cases items with
  | nil => cases parts
  | cons first later =>
      cases parts
      exact ⟨fun word => List.mem_cons_of_mem item, List.mem_cons_self⟩

theorem proper_of_divided
    {left right : Int}
    {word : Word}
    (divides : divided left right = .ok word) :
    word.Proper := by
  unfold divided at divides
  split at divides
  · cases divides
    exact Word.proper_wrap _
  · cases divides

/-- A built-in word keeps machines proper, unless it is the one that counts the items of a list. -/
theorem perform_keepsProper
    (host : Host σ)
    {builtin : Builtin}
    (other : builtin ≠ .length) :
    KeepsProper (perform host builtin) := by
  cases builtin with
  | length => exact absurd rfl other
  | append =>
      refine (Yields.popAs Word.ensures_asList).bind fun left leftEach => ?_
      refine (Yields.popAs Word.ensures_asList).bind fun right rightEach => ?_
      exact .push (.list (List.forall_mem_append.mpr ⟨leftEach, rightEach⟩))
  | pushBack =>
      refine Yields.pop.bind fun value proper => ?_
      refine (Yields.popAs Word.ensures_asList).bind fun items each => ?_
      refine .push (.list (List.forall_mem_append.mpr ⟨each, ?_⟩))
      exact List.forall_mem_singleton.mpr proper
  | pushFront =>
      refine Yields.pop.bind fun value proper => ?_
      refine (Yields.popAs Word.ensures_asList).bind fun items each => ?_
      exact .push (.list (List.forall_mem_cons.mpr ⟨proper, each⟩))
  | popBack => exact .split fun _ _ _ => within_of_lastApart
  | popFront => exact .split fun _ _ _ => within_of_firstApart
  | explode => exact (Yields.popAs Word.ensures_asList).bind fun items each => .pushEach each
  | capture => exact Yields.get.bind fun machine proper => .push (.list proper.data)
  | flatten | concat =>
      exact Yields.pop.bind fun _ _ => Yields.pop.bind fun _ _ => .push (.str _)
  | lines =>
      refine (Yields.popAs (Word.ensures_true _)).bind fun text _ => ?_
      exact .push (Word.proper_strings _ _)
  | parse =>
      refine (Yields.popAs (Word.ensures_true _)).bind fun text _ => ?_
      exact (Yields.parseText text).bind fun words each => .push (.list each)
  | echo => exact Yields.pop.bind fun _ _ => .echo _
  | prompt =>
      refine Yields.pop.bind fun word _ => (Yields.prompt _).bind fun reply _ => ?_
      cases reply with
      | line text => exact .push (.str text)
      | endOfInput => exact Yields.halt.bind fun _ _ => .push (.str "")
      | interrupted => exact .throw _
  | command =>
      refine Yields.pop.bind fun _ _ => Yields.pop.bind fun _ _ => ?_
      refine (Yields.ofExcept fun _ _ => trivial).bind fun args _ => ?_
      exact (Yields.command _ args).bind fun text _ => .push (.str text)
  | load =>
      refine (Yields.popAs (Word.ensures_true _)).bind fun path _ => ?_
      exact (Yields.load path).bind fun text _ => .push (.str text)
  | pick =>
      refine (Yields.popAs (Word.ensures_true _)).bind fun index _ => ?_
      exact (Yields.entry index).bind fun word proper => .push proper
  | roll =>
      refine (Yields.popAs (Word.ensures_true _)).bind fun index _ => ?_
      exact (Yields.removeAt index).bind fun word proper => .push proper
  | drop => exact Yields.pop.bind fun _ _ => .pure trivial
  | clear => exact .clearData
  | hex => exact (Yields.popAs Word.ensures_intoHex).bind fun number proper => .push proper
  | int => exact (Yields.popAs Word.ensures_intoInt).bind fun number inRange => .push (.int inRange)
  | add | sub | mul =>
      refine .combine fun left right word result => ?_
      cases result
      exact Word.proper_wrap _
  | div => exact .combine fun left right word => proper_of_divided
  | neg =>
      exact (Yields.popAs (Word.ensures_true _)).bind fun number _ => .push (Word.proper_wrap _)
  | equal =>
      exact Yields.pop.bind fun _ _ => Yields.pop.bind fun _ _ => .push (Word.proper_ofBool _)
  | less | greater =>
      refine .combine fun left right word result => ?_
      cases result
      exact Word.proper_ofBool _
  | dict =>
      refine (Yields.popAs Word.ensures_asList).bind fun items each => ?_
      refine (Yields.ofExcept fun entries read => ?_).bind fun entries proper => .push proper
      refine Word.proper_of_entriesFromEnd (fun item present => ?_) Word.proper_dict_nil read
      exact each item (List.mem_reverse.mp present)
  | get =>
      refine (Yields.popAs Word.ensures_asDict).bind fun entries proper => ?_
      refine (Yields.popAs (Word.ensures_true _)).bind fun name _ => ?_
      cases found : Record.get? entries name with
      | none => exact .throw _
      | some value => exact .push (proper.get? found)
  | put =>
      refine (Yields.popAs Word.ensures_asDict).bind fun entries proper => ?_
      refine (Yields.popAs (Word.ensures_true _)).bind fun name _ => ?_
      exact Yields.pop.bind fun value valueProper => .push (proper.put name valueProper)
  | keys =>
      refine (Yields.popAs (Word.ensures_true _)).bind fun entries _ => ?_
      exact .push (Word.proper_strings id _)
  | bye => exact .halt
  | assign =>
      refine Yields.takeCode.bind fun word proper => ?_
      refine (Yields.ofExcept (Word.ensures_asAtom word · proper)).bind fun name spelled => ?_
      exact Yields.pop.bind fun value valueProper => .define spelled.ne_empty valueProper
  | eval =>
      refine Yields.pop.bind fun word proper => ?_
      cases word with
      | list items => exact .loadCode (Word.ensures_asList _ items proper rfl)
      | atom | int | hex | str | dict => exact .push proper
  | expand =>
      refine (Yields.popAs (Word.ensures_true _)).bind fun names _ => ?_
      refine Yields.pop.bind fun template proper => ?_
      refine (Yields.bindEach (fun entry present => absurd present List.not_mem_nil) names).bind ?_
      exact fun values each => .push (proper.expand each)
  | branch =>
      refine (Yields.popAs (Word.ensures_true _)).bind fun test _ => ?_
      refine (Yields.popAs Word.ensures_asList).bind fun consequent each => ?_
      refine (Yields.popAs Word.ensures_asList).bind fun alternative otherEach => ?_
      cases test with
      | true => exact .loadCode each
      | false => exact .loadCode otherEach
  | protect =>
      refine (Yields.popAs Word.ensures_asList).bind fun body each => ?_
      refine (Yields.popAs Word.ensures_asList).bind fun handler handlerEach => ?_
      refine (Yields.enterRegion handlerEach).bind fun _ _ => ?_
      exact (Yields.putCode Word.proper_closing).bind fun _ _ => .loadCode each
  | unprotect => exact .leaveRegion
  | quote => exact Yields.takeCode.bind fun word proper => .push proper
  | arrange =>
      refine Yields.takeCode.bind fun right rightProper => ?_
      refine Yields.takeCode.bind fun operation operationProper => ?_
      refine Yields.takeCode.bind fun left leftProper => Yields.takeCode.bind fun mark _ => ?_
      split
      · refine .loadCode ?_
        rw [List.forall_mem_cons, List.forall_mem_cons, List.forall_mem_singleton]
        exact ⟨operationProper, leftProper, rightProper⟩
      · exact .throw _
  | debug => exact Yields.get.bind fun machine _ => .echoEach _
  | inspect =>
      refine (Yields.popAs (Word.ensures_true _)).bind fun name _ => ?_
      exact (Yields.lookup name).bind fun binding _ => .echoEach _

/-- Counting the items of a list keeps machines proper if no list on the data stack is too long. -/
theorem perform_length_good
    (host : Host σ)
    {before : Machine σ}
    (proper : before.Proper)
    (short : ∀ items, .list items ∈ before.data → items.length ≤ maxInt) :
    Good (fun _ => True) (perform host .length before) := by
  have good := Yields.popAs Word.ensures_asList before proper
  cases result : popAs Word.asList before with
  | error fault failed =>
      rw [result] at good
      rw [perform, bind_of_error result]
      exact good
  | ok items middle =>
      rw [result] at good
      rw [perform, bind_of_ok result]
      obtain ⟨word, popped, pop, read⟩ := bind_eq_ok result
      obtain ⟨rest, data, -⟩ := exists_cons_of_pop pop
      have list := Word.eq_list_of_asList (eq_ok_of_ofExcept read).1
      have atMost := short items (by rw [data, list]; exact List.mem_cons_self)
      have atLeast : minInt ≤ items.length := Int.le_trans (by decide) (Int.natCast_nonneg _)
      exact Yields.push (.int ⟨atLeast, atMost⟩) middle good.1

/-- What comes first in the call of a definition may refuse it. -/
theorem Yields.guarded
    (effect : Effect)
    {start : Action σ Unit}
    (starts : KeepsProper start) :
    KeepsProper (MonadState.get >>= fun machine : Machine σ =>
      if effect.exact && machine.data.length < effect.input then
        (fail .stackUnderflow : Action σ PUnit) >>= fun _ => start
      else start) := by
  refine Yields.get.bind fun machine _ => ?_
  split
  · exact (Yields.throw _ : KeepsProper _).bind fun _ _ => starts
  · exact starts

theorem call_keepsProper
    (effect : Effect)
    {word : Word}
    (proper : word.Proper) :
    KeepsProper (call effect word : Action σ Unit) := by
  cases word with
  | list body => exact .guarded effect (.loadCode (Word.ensures_asList _ body proper rfl))
  | atom | int | hex | str | dict => exact .guarded effect (.putCode proper)

/-- Executing a name keeps a machine proper if no list on the data stack is too long. -/
theorem execute_good
    (host : Host σ)
    {before : Machine σ}
    (name : String)
    (proper : before.Proper)
    (short : ∀ items, .list items ∈ before.data → items.length ≤ maxInt) :
    Good (fun _ => True) (execute host name before) := by
  cases found : before.dictionary.get? name with
  | none =>
      rw [execute, bind_of_error (lookup_of_none found)]
      exact proper
  | some binding =>
      rw [execute, bind_of_ok (lookup_of_some found)]
      cases binding with
      | primitive builtin =>
          by_cases counts : builtin = .length
          · subst counts
            exact perform_length_good host proper short
          · exact perform_keepsProper host counts before proper
      | defined effect word =>
          have wordProper := (proper.dictionary _ (Record.mem_of_get? found)).2
          exact call_keepsProper effect wordProper before proper

end Action

namespace Library

/-- The words of the library are proper, since they come from its text. -/
theorem proper_dictionary : dictionary.Proper := by
  have named : ∀ entry ∈ dictionary, entry.1 ≠ "" := by decide +kernel
  intro entry present
  refine ⟨named entry present, ?_⟩
  rcases List.mem_append.mp present with builtin | definition
  · obtain ⟨builtin, -, rfl⟩ := List.mem_map.mp builtin
    trivial
  · obtain ⟨⟨name, effect, word⟩, member, rfl⟩ := List.mem_map.mp definition
    refine Word.proper_of_parse parse_text word (List.mem_reverse.mpr ?_)
    exact List.mem_flatMap.mpr ⟨_, member, List.mem_cons_self⟩

end Library

namespace Machine

variable {σ : Type} {host : Host σ} {machine : Machine σ}

theorem Proper.begun
    {name : String}
    {rest : List Word}
    (proper : machine.Proper)
    (next : machine.code = .atom name :: rest) :
    (machine.begun name rest).Proper := by
  have code := proper.code
  rw [next, List.forall_mem_cons] at code
  refine ⟨?_, ?_, ?_, ?_⟩
  · rw [dictionary_begun]
    exact proper.dictionary
  · rw [data_begun]
    exact proper.data
  · rw [code_begun]
    exact code.2
  · rw [recovery_begun]
    exact proper.recovery

theorem Proper.of_untouched
    {after : Machine σ}
    (proper : machine.Proper)
    (untouched : machine.Untouched after) :
    after.Proper := by
  refine ⟨?_, ?_, ?_, ?_⟩
  · rw [untouched.dictionary]
    exact proper.dictionary
  · rw [untouched.data]
    exact proper.data
  · rw [untouched.code]
    exact proper.code
  · rw [untouched.recovery]
    exact proper.recovery

/-- No list on the data stack has more items than the greatest integer tells. -/
def Countable (machine : Machine σ) : Prop :=
  ∀ items, .list items ∈ machine.data → items.length ≤ maxInt

instance (machine : Machine σ) : Decidable machine.Countable :=
  decidable_of_iff (∀ word ∈ machine.data, word.intoList.length ≤ maxInt) <| by
    constructor
    · exact fun each items present => each (.list items) present
    · intro countable word present
      cases word with
      | list items => exact countable items present
      | atom | int | hex | str | dict => exact (by decide : (1 : Int) ≤ maxInt)

/-- A step keeps a machine proper. -/
theorem step_proper
    (host : Host σ)
    (proper : machine.Proper)
    (countable : machine.Countable) :
    (ofProgress (machine.step host)).Proper := by
  have takes := step_takes host machine
  generalize stepped : machine.step host = progress at takes
  cases takes with
  | finished done => exact ⟨proper.dictionary, proper.data, proper.code, proper.recovery⟩
  | shifted word rest literal next =>
      have code := proper.code
      rw [next, List.forall_mem_cons] at code
      refine ⟨proper.dictionary, ?_, code.2, proper.recovery⟩
      exact List.forall_mem_cons.mpr ⟨code.1, proper.data⟩
  | executed name rest after next done =>
      have good := Action.execute_good host name (proper.begun next) (by rwa [data_begun])
      rw [done] at good
      exact good.1
  | recovered name rest error failed snapshot outer next failure regions =>
      have recovery := proper.recovery
      rw [← recovery_of_failure failure, regions, List.forall_mem_cons] at recovery
      refine ⟨?_, ?_, ?_, ?_⟩
      · rw [ofProgress, dictionary_recover]
        exact recovery.1.dictionary
      · rw [ofProgress, data_recover]
        exact List.forall_mem_cons.mpr ⟨.str _, recovery.1.data⟩
      · rw [ofProgress, code_recover]
        exact recovery.1.code
      · rw [ofProgress, recovery_recover]
        exact recovery.2
  | abandoned name rest error failed next failure regions =>
      rw [recovery_of_failure failure] at regions
      rw [step_withdraws regions next failure] at stepped
      rw [← stepped]
      exact proper.of_untouched (withdrawn_untouched next)
  | broken name rest fault failed next failure foreign =>
      have good := Action.execute_good host name (proper.begun next) (by rwa [data_begun])
      rw [failure] at good
      exact good

/-- All words stay proper. Whatever sources are evaluated on a fresh machine, and whatever its host
answers, every state of the machine is proper, also after failures and in their regions: integers
are in their ranges, atoms are bare words, the names of dicts are distinct, and no bound name is
empty. The lists on the data stack must not have grown too long to be counted. -/
theorem reached_proper
    {phase : Phase}
    {past : List (Machine σ)}
    (reached : Reached host phase past machine)
    (countable : ∀ state ∈ past, state.Countable) :
    machine.Proper := by
  induction reached with
  | fresh tracing world =>
      obtain ⟨log, begins⟩ := Library.fresh_eq host tracing world
      have empty : ∀ word ∈ ([] : List Word), word.Proper := fun _ present =>
        absurd present List.not_mem_nil
      rw [begins]
      exact ⟨Library.proper_dictionary, empty, empty, fun _ present =>
        absurd present List.not_mem_nil⟩
  | read earlier parsed inductionHypothesis =>
      have proper := inductionHypothesis (List.forall_mem_cons.mp countable).2
      refine ⟨proper.dictionary, proper.data, ?_, proper.recovery⟩
      refine List.forall_mem_append.mpr ⟨?_, proper.code⟩
      exact fun word present => Word.proper_of_parse parsed word (List.mem_reverse.mp present)
  | step earlier progress inductionHypothesis | ended earlier progress inductionHypothesis =>
      rw [List.forall_mem_cons] at countable
      have follows := step_proper host (inductionHypothesis countable.2) countable.1
      rwa [progress] at follows

/-- A dict is written with a name twice, a quotient leaves its range, and a name that means nothing
ends the run. -/
theorem reached_proper_failing :
    ∃ (past : List (Machine Answer)) (origin : Machine Answer),
      Reached Answer.host .resting past origin ∧
      (∀ state ∈ past, state.Countable) ∧
      origin.data =
        [.int (-2147483648), .dict [("k", .int 1)]] ∧
      origin.code = [.atom "foo"] ∧
      origin.Proper := by
  have parsed : Source.parse "dict \x7b k = #ff ; k = 1 \x7d\nfoo / -2147483648 -1" =
      .ok [.atom "foo", .atom "/", .int (-2147483648), .int (-1), .atom "dict",
        .list [.atom "k", .atom "=", .int 1, .atom "k", .atom "=", .hex 255]] :=
      Source.parse_of_readTokens rfl
  obtain ⟨log, fresh⟩ := Reached.exists_fresh Answer.host false {}
  let begun : Machine Answer :=
    { Library.bare false {} with dictionary := Library.dictionary, log }
  let origin : Machine Answer :=
    { begun with
      data := [.int (-2147483648), .dict [("k", .int 1)]]
      code := [.atom "foo"] }
  have finished : begun.evaluate Answer.host 8
      "dict \x7b k = #ff ; k = 1 \x7d\nfoo / -2147483648 -1" =
        some (.error (.eval (.unknown "foo")) origin) :=
    (evaluate_of_parse Answer.host 8 parsed begun).trans rfl
  obtain ⟨past, reached, countable⟩ := fresh.evaluate finished Countable
    (List.forall_mem_singleton.mpr (of_decide_eq_true rfl)) <| by
      refine throughoutEvaluation_of_parse parsed ?_
      iterate 5 refine .of_running (of_decide_eq_true rfl) rfl ?_
      exact .of_ended (of_decide_eq_true rfl) rfl
  exact ⟨past, origin, reached, countable, rfl, rfl, reached_proper reached countable⟩
end Machine
end Concatenative
