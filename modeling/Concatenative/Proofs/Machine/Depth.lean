import Concatenative.Proofs.Inference
import Concatenative.Proofs.Machine.Rewinding
import Concatenative.Proofs.Machine.Steps

/-!
# The depth of the data stack

The stack effect of an action tells how the depth of the data stack changes whenever the action does
not fail, and how deep the data stack must be if the action is not to fail for lack of words. Effects
of actions compose as effects do, so that of a built-in word follows from the way in which the word
is made. Two words with exact effects look deeper than their effects tell: `pick` and `roll` address
an entry of the data stack by an index that is itself on the stack.
-/

namespace Concatenative

/-- The depth of the data stack changes as an effect says. -/
def Effect.Fits (effect : Effect) (before after : Nat) : Prop :=
  effect.input ≤ before ∧ (after : Int) = before - effect.input + effect.output

theorem Effect.Fits.andThen
    {first second : Effect}
    {before middle after : Nat}
    (earlier : first.Fits before middle)
    (later : second.Fits middle after) :
    (first.andThen second).Fits before after := by
  obtain ⟨enoughBefore, middleDepth⟩ := earlier
  obtain ⟨enoughMiddle, afterDepth⟩ := later
  unfold Effect.andThen
  split
  · refine ⟨?_, ?_⟩ <;> dsimp only <;> omega
  · refine ⟨enoughBefore, ?_⟩
    dsimp only
    omega

/-- What is deep enough for two effects in turn is deep enough for the second after the first. -/
theorem Effect.Fits.enough
    {first second : Effect}
    {before middle : Nat}
    (earlier : first.Fits before middle)
    (deep : (first.andThen second).input ≤ before) :
    second.input ≤ middle := by
  obtain ⟨-, middleDepth⟩ := earlier
  rw [Effect.andThen_eq] at deep
  dsimp only at deep
  omega

/-- Taking the word at an index away makes a stack one word lower. -/
theorem length_without
    {index : Int}
    {word : Word}
    {words : List Word}
    (found : wordAt? index words = some word) :
    (without index words).length + 1 = words.length := by
  cases index with
  | ofNat count =>
      obtain ⟨bound, -⟩ := List.getElem?_eq_some_iff.mp found
      change (words.eraseIdx count).length + 1 = words.length
      rw [List.length_eraseIdx_of_lt bound]
      omega
  | negSucc count =>
      obtain ⟨bound, -⟩ := List.getElem?_eq_some_iff.mp found
      change (words.reverse.eraseIdx count).reverse.length + 1 = words.length
      rw [List.length_reverse, List.length_eraseIdx_of_lt bound, List.length_reverse]
      rw [List.length_reverse] at bound
      omega

/-- The result is anything but a complaint that words are missing. -/
def Ample {α : Type} (result : Except EvalError α) : Prop :=
  result ≠ .error .stackUnderflow

theorem Ample.ok {α : Type} (value : α) : Ample (.ok value) := by
  rintro ⟨⟩

namespace Word

/-! ## Operands are never missing words -/

theorem ample_asAtom (word : Word) : Ample word.asAtom := by
  cases word <;> simp [Ample, asAtom]

theorem ample_asInt (word : Word) : Ample word.asInt := by
  cases word <;> simp [Ample, asInt]

theorem ample_asStr (word : Word) : Ample word.asStr := by
  cases word <;> simp [Ample, asStr]

theorem ample_asList (word : Word) : Ample word.asList := by
  cases word <;> simp [Ample, asList]

theorem ample_asDict (word : Word) : Ample word.asDict := by
  cases word <;> simp [Ample, asDict]

theorem ample_entryName (word : Word) : Ample word.entryName := by
  cases word <;> simp [Ample, entryName]

theorem ample_intoInt (word : Word) : Ample word.intoInt := by
  cases word with
  | hex value =>
      simp only [Ample, intoInt]
      split <;> simp
  | atom | int | str | list | dict => simp [Ample, intoInt]

theorem ample_intoHex (word : Word) : Ample word.intoHex := by
  cases word with
  | int value =>
      simp only [Ample, intoHex]
      split <;> simp
  | atom | hex | str | list | dict => simp [Ample, intoHex]

theorem ample_operand (word : Word) : Ample word.operand := by
  cases word with
  | hex value => exact ample_intoInt (.hex value)
  | atom | int | str | list | dict => simp [Ample, operand]

end Word

namespace Action

variable {σ : Type} {α : Type} {host : Host σ} {effect : Effect}

theorem ample_readEach
    {read : Word → Except EvalError α}
    (ample : ∀ word, Ample (read word))
    (words : List Word) :
    Ample (readEach read words) := by
  induction words with
  | nil => simp [Ample, readEach]
  | cons word rest inductionHypothesis =>
      have here := ample word
      unfold Ample at here inductionHypothesis ⊢
      cases first : read word <;> cases later : readEach read rest <;>
        simp_all [readEach, bind, Except.bind, pure, Except.pure]

theorem ample_divided (left right : Int) : Ample (divided left right) := by
  unfold divided
  split <;> simp [Ample]

theorem ample_entriesOf (items : List Word) : Ample (entriesOf items) := by
  intro refused
  cases entriesFromEnd_eq_error refused

/-- An action that does not fail changes the depth of the data stack as an effect says. -/
def HasEffect (effect : Effect) (action : Action σ α) : Prop :=
  ∀ before value after, action before = .ok value after →
    effect.Fits before.data.length after.data.length

/-- An action has an effect, and it does not complain that words are missing if the data stack is
deep enough for the effect. -/
structure Serves (effect : Effect) (action : Action σ α) : Prop where
  /-- The depth of the data stack changes as the effect says. -/
  fits : HasEffect effect action
  /-- The words that the effect takes are all the words that are needed. -/
  enough : ∀ before failed, effect.input ≤ before.data.length →
    action before ≠ .error (.eval .stackUnderflow) failed

section Sequences

variable {β : Type} {first second : Effect} {action : Action σ α} {next : α → Action σ β}

theorem HasEffect.bind
    (earlier : HasEffect first action)
    (later : ∀ value, HasEffect second (next value))
    (composed : first.andThen second = effect) :
    HasEffect effect (action >>= next) := by
  intro before value after done
  obtain ⟨early, middle, done, nextDone⟩ := bind_eq_ok done
  rw [← composed]
  exact (earlier before early middle done).andThen (later early middle value after nextDone)

theorem Serves.bind
    (earlier : Serves first action)
    (later : ∀ value, Serves second (next value))
    (composed : first.andThen second = effect) :
    Serves effect (action >>= next) := by
  refine ⟨earlier.fits.bind (fun value => (later value).fits) composed, ?_⟩
  intro before failed deep failure
  rw [← composed] at deep
  rcases bind_eq_error failure with early | ⟨value, middle, done, late⟩
  · exact earlier.enough before failed (Int.le_trans (first.input_le_andThen second) deep) early
  · exact (later value).enough middle failed ((earlier.fits before value middle done).enough deep) late

end Sequences

namespace Serves

/-- An action that leaves the data alone and does not complain has the neutral effect. -/
theorem of_data_eq
    {action : Action σ α}
    (same : ∀ before, (action.leaves before).data = before.data)
    (enough : ∀ before failed, action before ≠ .error (.eval .stackUnderflow) failed) :
    Serves .neutral action := by
  refine ⟨?_, fun before failed _ => enough before failed⟩
  intro before value after done
  have kept := same before
  rw [leaves_of_ok done] at kept
  rw [kept]
  refine ⟨Int.natCast_nonneg _, ?_⟩
  simp [Effect.neutral]

/-- An action that never fails and leaves the data alone has the neutral effect. -/
theorem of_ok
    {action : Action σ α}
    (succeeds : ∀ before, ∃ value after, action before = .ok value after ∧
      after.data = before.data) :
    Serves .neutral action := by
  refine of_data_eq (fun before => ?_) fun before failed failure => ?_ <;>
    obtain ⟨value, after, done, same⟩ := succeeds before
  · rw [leaves_of_ok done, same]
  · rw [done] at failure
    cases failure

/-- An action that always fails, and not for lack of words, has every effect. -/
theorem throw
    {fault : Fault}
    (other : fault ≠ .eval .stackUnderflow) :
    Serves effect (throw fault : Action σ α) := by
  constructor
  · intro before value after done
    cases done
  · intro before failed _ failure
    injection failure with same
    exact other same

theorem pure (value : α) : Serves .neutral (pure value : Action σ α) :=
  of_ok fun _ => ⟨_, _, rfl, rfl⟩

theorem ofExcept
    {result : Except EvalError α}
    (ample : Ample result) :
    Serves .neutral (ofExcept result : Action σ α) := by
  cases result with
  | ok value => exact pure value
  | error error => exact throw fun same => ample (congrArg Except.error (Fault.eval.inj same))

theorem push (word : Word) : Serves ⟨0, 1, true⟩ (push word : Action σ Unit) := by
  constructor
  · intro before value after done
    cases done
    refine ⟨Int.natCast_nonneg _, ?_⟩
    simp [Machine.mapStacks, Stacks.push]
  · rintro before failed - ⟨⟩

theorem pop : Serves ⟨1, 0, true⟩ (pop : Action σ Word) := by
  constructor
  · intro before word after done
    obtain ⟨rest, data, rfl⟩ := exists_cons_of_pop done
    rw [data, List.length_cons]
    refine ⟨?_, ?_⟩ <;> dsimp only <;> omega
  · intro before failed deep
    cases data : before.data with
    | nil => simp [data] at deep
    | cons word rest =>
        rw [pop_of_cons data]
        rintro ⟨⟩

theorem popAs
    {read : Word → Except EvalError α}
    (ample : ∀ word, Ample (read word)) :
    Serves ⟨1, 0, true⟩ (popAs read : Action σ α) :=
  pop.bind (fun word => ofExcept (ample word)) rfl

theorem combine
    {operation : Int → Int → Except EvalError Word}
    (ample : ∀ left right, Ample (operation left right)) :
    Serves ⟨2, 1, true⟩ (combine operation : Action σ Unit) := by
  refine (popAs Word.ample_operand).bind (fun left => ?_)
    (rfl : Effect.andThen _ ⟨1, 1, true⟩ = _)
  refine (popAs Word.ample_operand).bind (fun right => ?_)
    (rfl : Effect.andThen _ ⟨0, 1, true⟩ = _)
  exact (ofExcept (ample left right)).bind (fun word => push word) rfl

theorem split (parts : List Word → Option (List Word × Word)) :
    Serves ⟨1, 2, true⟩ (split parts : Action σ Unit) := by
  refine (popAs Word.ample_asList).bind (fun items => ?_) (rfl : Effect.andThen _ ⟨0, 2, true⟩ = _)
  cases parts items with
  | none => exact throw (by simp)
  | some both => exact (push _).bind (fun _ => push both.2) rfl

theorem parseText (text : String) :
    Serves .neutral (parseText text : Action σ (List Word)) := by
  unfold Action.parseText
  split
  · exact pure _
  · exact throw (by simp)
  · exact throw (by simp)

theorem lookup (name : String) : Serves .neutral (lookup name : Action σ Binding) := by
  refine of_data_eq (fun before => ?_) fun before failed => ?_ <;>
    cases found : before.dictionary.get? name with
    | none => simp [leaves, lookup_of_none found]
    | some meaning => simp [leaves, lookup_of_some found]

theorem echo (text : String) : Serves .neutral (echo host text) :=
  of_ok fun _ => ⟨_, _, rfl, rfl⟩

theorem echoEach (texts : List String) : Serves .neutral (echoEach host texts) := by
  induction texts with
  | nil => exact pure ()
  | cons text rest inductionHypothesis => exact (echo text).bind (fun _ => inductionHypothesis) rfl

theorem prompt (text : String) : Serves .neutral (prompt host text) :=
  of_ok fun _ => ⟨_, _, rfl, rfl⟩

theorem halt : Serves .neutral (halt : Action σ Unit) :=
  of_ok fun _ => ⟨_, _, rfl, rfl⟩

theorem load (path : String) : Serves .neutral (load host path) :=
  of_data_eq (fun before => by rw [load_leaves]) fun _ failed failure =>
    ofHost_ne_eval _ _ _ failed .stackUnderflow failure

theorem command (name : String) (args : List String) :
    Serves .neutral (command host name args) :=
  of_data_eq (fun before => by rw [command_leaves]) fun _ failed failure =>
    ofHost_ne_eval _ _ _ failed .stackUnderflow failure

end Serves

/-! ## Entries of the data stack -/

theorem HasEffect.failAt (index : Int) : HasEffect effect (failAt index : Action σ α) := by
  intro before value after done
  unfold Action.failAt at done
  split at done <;> cases done

theorem HasEffect.entry (index : Int) : HasEffect ⟨1, 1, true⟩ (entry index : Action σ Word) := by
  intro before word after done
  rw [Action.entry, bind_of_ok (get_ok before), Stacks.entry?] at done
  cases found : wordAt? index before.data with
  | none =>
      rw [found] at done
      exact failAt index before word after done
  | some word =>
      have inside := length_without found
      rw [found] at done
      cases done
      refine ⟨?_, ?_⟩ <;> dsimp only <;> omega

theorem HasEffect.removeAt (index : Int) :
    HasEffect ⟨1, 0, true⟩ (removeAt index : Action σ Word) := by
  intro before word after done
  cases found : wordAt? index before.data with
  | none =>
      simp only [Action.removeAt, Stacks.removeAt?, Stacks.entry?, found] at done
      exact failAt index before word after done
  | some word =>
      have inside := length_without found
      simp only [Action.removeAt, Stacks.removeAt?, Stacks.entry?, found] at done
      cases done
      refine ⟨?_, ?_⟩ <;> dsimp only <;> omega

/-- An entry that is missed is one that lies too deep. -/
theorem le_index_of_failAt
    {index : Int}
    {before failed : Machine σ}
    (missing : wordAt? index before.data = none)
    (failure : (failAt index : Action σ α) before = .error (.eval .stackUnderflow) failed) :
    before.data.length ≤ index := by
  unfold failAt at failure
  split at failure
  · rename_i fromTop
    obtain ⟨count, rfl⟩ := Int.eq_ofNat_of_zero_le fromTop
    exact Int.ofNat_le.mpr (List.getElem?_eq_none_iff.mp missing)
  · cases failure

theorem le_index_of_entry
    {index : Int}
    {before failed : Machine σ}
    (failure : entry index before = .error (.eval .stackUnderflow) failed) :
    before.data.length ≤ index := by
  rw [entry, bind_of_ok (get_ok before), Stacks.entry?] at failure
  cases found : wordAt? index before.data with
  | none =>
      rw [found] at failure
      exact le_index_of_failAt found failure
  | some word =>
      rw [found] at failure
      cases failure

theorem le_index_of_removeAt
    {index : Int}
    {before failed : Machine σ}
    (failure : removeAt index before = .error (.eval .stackUnderflow) failed) :
    before.data.length ≤ index := by
  cases found : wordAt? index before.data with
  | none =>
      simp only [removeAt, Stacks.removeAt?, Stacks.entry?, found] at failure
      exact le_index_of_failAt found failure
  | some word => simp [removeAt, Stacks.removeAt?, Stacks.entry?, found] at failure

/-- A word that takes an index from the data stack and goes for the entry there complains only if
the entry lies too deep below the index. -/
theorem exists_index_of_underflow
    {locate : Int → Action σ Word}
    {before failed : Machine σ}
    (deeper : ∀ index middle, locate index middle = .error (.eval .stackUnderflow) failed →
      middle.data.length ≤ index)
    (deep : 1 ≤ (before.data.length : Int))
    (failure : (popAs Word.intoHex >>= fun index => locate index >>= push) before =
      .error (.eval .stackUnderflow) failed) :
    ∃ word left index,
      before.data = word :: left ∧ word.intoHex = .ok index ∧ left.length ≤ index := by
  rcases bind_eq_error failure with early | ⟨index, middle, read, late⟩
  · exact absurd early ((Serves.popAs Word.ample_intoHex).enough before failed deep)
  · obtain ⟨word, popped, pop, reads⟩ := bind_eq_ok read
    obtain ⟨left, data, rfl⟩ := exists_cons_of_pop pop
    obtain ⟨hex, rfl⟩ := eq_ok_of_ofExcept reads
    rcases bind_eq_error late with missed | ⟨_, _, _, ⟨⟩⟩
    exact ⟨word, left, index, data, hex, deeper index _ missed⟩

/-! ## Built-in words -/

/-- A built-in word with an exact effect serves, if it does not address the data stack by an
index. -/
theorem perform_serves
    (host : Host σ)
    {builtin : Builtin}
    (exact : builtin.effect.exact = true)
    (noPick : builtin ≠ .pick)
    (noRoll : builtin ≠ .roll) :
    Serves builtin.effect (perform host builtin) := by
  cases builtin with
  | pick => exact absurd rfl noPick
  | roll => exact absurd rfl noRoll
  | length => exact (Serves.popAs Word.ample_asList).bind (fun _ => .push _) rfl
  | lines => exact (Serves.popAs Word.ample_asStr).bind (fun _ => .push _) rfl
  | hex => exact (Serves.popAs Word.ample_intoHex).bind (fun _ => .push _) rfl
  | int => exact (Serves.popAs Word.ample_intoInt).bind (fun _ => .push _) rfl
  | neg => exact (Serves.popAs Word.ample_asInt).bind (fun _ => .push _) rfl
  | keys => exact (Serves.popAs Word.ample_asDict).bind (fun _ => .push _) rfl
  | append =>
      exact (Serves.popAs Word.ample_asList).bind
        (fun _ => (Serves.popAs Word.ample_asList).bind (fun _ => .push _) rfl) rfl
  | pushBack | pushFront =>
      exact Serves.pop.bind
        (fun _ => (Serves.popAs Word.ample_asList).bind (fun _ => .push _) rfl) rfl
  | popBack | popFront => exact .split _
  | flatten | concat | equal =>
      exact Serves.pop.bind (fun _ => Serves.pop.bind (fun _ => .push _) rfl) rfl
  | parse =>
      exact (Serves.popAs Word.ample_asStr).bind
        (fun _ => (Serves.parseText _).bind (fun _ => .push _) rfl) rfl
  | echo => exact Serves.pop.bind (fun _ => .echo _) rfl
  | prompt =>
      refine Serves.pop.bind (fun _ => ?_) (rfl : Effect.andThen _ ⟨0, 1, true⟩ = _)
      refine (Serves.prompt _).bind (fun reply => ?_) (rfl : Effect.andThen _ ⟨0, 1, true⟩ = _)
      cases reply with
      | line text => exact .push _
      | endOfInput => exact Serves.halt.bind (fun _ => .push _) rfl
      | interrupted => exact .throw (by simp)
  | command =>
      refine Serves.pop.bind (fun _ => ?_) (rfl : Effect.andThen _ ⟨1, 1, true⟩ = _)
      refine Serves.pop.bind (fun _ => ?_) (rfl : Effect.andThen _ ⟨0, 1, true⟩ = _)
      exact (Serves.ofExcept (ample_readEach Word.ample_asStr _)).bind
        (fun _ => (Serves.command _ _).bind (fun _ => .push _) rfl) rfl
  | load =>
      exact (Serves.popAs Word.ample_asStr).bind
        (fun _ => (Serves.load _).bind (fun _ => .push _) rfl) rfl
  | drop => exact Serves.pop.bind (fun _ => .pure ()) rfl
  | add | sub | mul | less | greater => exact .combine fun _ _ => .ok _
  | div => exact .combine ample_divided
  | dict =>
      exact (Serves.popAs Word.ample_asList).bind
        (fun items => (Serves.ofExcept (ample_entriesOf items)).bind (fun _ => .push _) rfl) rfl
  | get =>
      refine (Serves.popAs Word.ample_asDict).bind (fun entries => ?_)
        (rfl : Effect.andThen _ ⟨1, 1, true⟩ = _)
      refine (Serves.popAs Word.ample_entryName).bind (fun name => ?_)
        (rfl : Effect.andThen _ ⟨0, 1, true⟩ = _)
      cases Record.get? entries name with
      | none => exact .throw (by simp)
      | some value => exact .push value
  | put =>
      refine (Serves.popAs Word.ample_asDict).bind (fun _ => ?_)
        (rfl : Effect.andThen _ ⟨2, 1, true⟩ = _)
      exact (Serves.popAs Word.ample_entryName).bind
        (fun _ => Serves.pop.bind (fun _ => .push _) rfl) rfl
  | unprotect => exact .of_ok fun _ => ⟨_, _, rfl, rfl⟩
  | debug =>
      have looks : Serves .neutral (MonadState.get : Action σ (Machine σ)) :=
        .of_ok fun _ => ⟨_, _, rfl, rfl⟩
      exact looks.bind (fun _ => .echoEach _) rfl
  | inspect =>
      exact (Serves.popAs Word.ample_asAtom).bind
        (fun name => (Serves.lookup name).bind (fun _ => .echoEach _) rfl) rfl
  | explode | capture | clear | bye | assign | eval | expand | branch | protect | quote | arrange =>
      cases exact

/-- On a data stack that is deep enough for its exact effect, a built-in word complains that words
are missing only if it addresses an entry that lies too deep. -/
theorem indexed_of_underflow
    {builtin : Builtin}
    {before failed : Machine σ}
    (exact : builtin.effect.exact = true)
    (deep : builtin.effect.input ≤ before.data.length)
    (failure : perform host builtin before = .error (.eval .stackUnderflow) failed) :
    (builtin = .pick ∨ builtin = .roll) ∧
      ∃ word left index,
        before.data = word :: left ∧ word.intoHex = .ok index ∧ left.length ≤ index := by
  by_cases picks : builtin = .pick
  · subst picks
    refine ⟨.inl rfl, exists_index_of_underflow (fun index middle => le_index_of_entry) ?_ failure⟩
    exact Int.le_trans (by decide) deep
  by_cases rolls : builtin = .roll
  · subst rolls
    refine ⟨.inr rfl, exists_index_of_underflow (fun index middle => le_index_of_removeAt) ?_ failure⟩
    exact Int.le_trans (by decide) deep
  exact absurd failure ((perform_serves host exact picks rolls).enough before failed deep)

/-- A built-in word with an exact effect has that effect. -/
theorem perform_hasEffect
    (host : Host σ)
    {builtin : Builtin}
    (exact : builtin.effect.exact = true) :
    HasEffect builtin.effect (perform host builtin) := by
  by_cases picks : builtin = .pick
  · subst picks
    exact (Serves.popAs Word.ample_intoHex).fits.bind
      (fun _ => (HasEffect.entry _).bind (fun _ => (Serves.push _).fits) rfl) rfl
  by_cases rolls : builtin = .roll
  · subst rolls
    exact (Serves.popAs Word.ample_intoHex).fits.bind
      (fun _ => (HasEffect.removeAt _).bind (fun _ => (Serves.push _).fits) rfl) rfl
  exact (perform_serves host exact picks rolls).fits

end Action
end Concatenative
