import Concatenative.Proofs.Machine.Rewinding

/-!
# The bounds of powers

An action leaves alone whatever it has no power to change. This is proved once, for the primitive
actions, and holds of every built-in word with the powers that `Builtin.powers` gives it.
-/

namespace Concatenative

/-- What lies between two machines if an action with some powers led from one to the other. -/
structure Powers.Bound {σ : Type} (powers : Powers) (before after : Machine σ) : Prop where
  /-- Without a way to take words, the code below stays. -/
  code : powers.takes = false → powers.regional = false → before.code <:+ after.code
  /-- If words cannot be added either, the whole code stays. -/
  sameCode : powers.takes = false → powers.regional = false → powers.loads = false →
    after.code = before.code
  /-- Names keep their meanings. -/
  dictionary : powers.binds = false → after.dictionary = before.dictionary
  /-- The regions that are open stay open, and no other is opened. -/
  recovery : powers.regional = false → after.recovery = before.recovery

namespace Powers.Bound

variable {σ : Type} {powers : Powers} {before middle after : Machine σ}

theorem refl (powers : Powers) (machine : Machine σ) : powers.Bound machine machine where
  code _ _ := List.suffix_refl _
  sameCode _ _ _ := rfl
  dictionary _ := rfl
  recovery _ := rfl

theorem trans
    (earlier : powers.Bound before middle)
    (later : powers.Bound middle after) :
    powers.Bound before after where
  code takes regional := (earlier.code takes regional).trans (later.code takes regional)
  sameCode takes regional loads :=
    (later.sameCode takes regional loads).trans (earlier.sameCode takes regional loads)
  dictionary binds := (later.dictionary binds).trans (earlier.dictionary binds)
  recovery regional := (later.recovery regional).trans (earlier.recovery regional)

/-- Only the code has changed, by words that came on top. -/
theorem loaded
    (added : List Word)
    (allowed : powers.loads = true)
    (code : after.code = added ++ before.code)
    (dictionary : after.dictionary = before.dictionary)
    (recovery : after.recovery = before.recovery) :
    powers.Bound before after where
  code _ _ := ⟨added, code.symm⟩
  sameCode _ _ loads := absurd loads (by simp [allowed])
  dictionary _ := dictionary
  recovery _ := recovery

/-- The code, the meanings of names and the regions are the same. -/
theorem unchanged
    (code : after.code = before.code)
    (dictionary : after.dictionary = before.dictionary)
    (recovery : after.recovery = before.recovery) :
    powers.Bound before after where
  code _ _ := code ▸ List.suffix_refl _
  sameCode _ _ _ := code
  dictionary _ := dictionary
  recovery _ := recovery

end Powers.Bound

namespace Action

variable {σ : Type} {α : Type} {host : Host σ} {powers : Powers}

/-- An action keeps within the bound of some powers, whether it fails or not. -/
def Bounded (powers : Powers) (action : Action σ α) : Prop :=
  Relates powers.Bound action

theorem Bounded.of_ok
    {action : Action σ α}
    {before after : Machine σ}
    {value : α}
    (bounded : Bounded powers action)
    (done : action before = .ok value after) :
    powers.Bound before after := by
  have bound := bounded before
  rwa [leaves_of_ok done] at bound

theorem Bounded.bind
    {β : Type}
    {first : Action σ α}
    {next : α → Action σ β}
    (firstBounded : Bounded powers first)
    (nextBounded : ∀ value, Bounded powers (next value)) :
    Bounded powers (first >>= next) :=
  Relates.bind (fun _ _ _ => .trans) firstBounded nextBounded

theorem pop_bounded : Bounded powers (pop : Action σ Word) := by
  intro machine
  cases data : machine.data with
  | nil =>
      have refused : pop machine = .error (.eval .stackUnderflow) machine := by
        simp only [pop, ofStacks, Stacks.pop?, data]
      rw [leaves_of_error refused]
      exact .refl powers machine
  | cons word rest =>
      rw [leaves_of_ok (pop_of_cons data)]
      exact .unchanged rfl rfl rfl

theorem takeCode_bounded (allowed : powers.takes = true) :
    Bounded powers (takeCode : Action σ Word) := by
  intro machine
  have frame := (takeCode_revocable machine).frame
  have impossible : powers.takes ≠ false := by simp [allowed]
  refine ⟨fun takes => absurd takes impossible, fun takes => absurd takes impossible, ?_, ?_⟩
  · intro _
    rw [frame]
  · intro _
    rw [frame]

theorem lookup_bounded (name : String) : Bounded powers (lookup name : Action σ Binding) := by
  intro machine
  have unchanged : (lookup name).leaves machine = machine := by
    cases found : machine.dictionary.get? name with
    | none => rw [leaves_of_error (lookup_of_none found)]
    | some binding => rw [leaves_of_ok (lookup_of_some found)]
  rw [unchanged]
  exact .refl powers machine

theorem Tentative.bounded
    {action : Action σ α}
    (tentative : Tentative powers action) :
    Bounded powers action := by
  induction tentative with
  | pure | throw | dataStack => exact fun machine => .refl powers machine
  | lookup name => exact lookup_bounded name
  | pop => exact pop_bounded
  | takeCode allowed => exact takeCode_bounded allowed
  | push | clearData => exact fun machine => .unchanged rfl rfl rfl
  | putCode word allowed => exact fun machine => .loaded [word] allowed rfl rfl rfl
  | loadCode words allowed => exact fun machine => .loaded words.reverse allowed rfl rfl rfl
  | bind _ _ firstBounded nextBounded => exact .bind firstBounded nextBounded

theorem Concluding.bounded
    {action : Action σ α}
    (concluding : Concluding host powers action) :
    Bounded powers action := by
  induction concluding with
  | pure | interrupt | codeStack => exact fun machine => .refl powers machine
  | push | echo | prompt => exact fun machine => .unchanged rfl rfl rfl
  | putCode word allowed => exact fun machine => .loaded [word] allowed rfl rfl rfl
  | loadCode words allowed => exact fun machine => .loaded words.reverse allowed rfl rfl rfl
  | define name word allowed =>
      intro machine
      have impossible : powers.binds ≠ false := by simp [allowed]
      exact ⟨fun _ _ => List.suffix_refl _, fun _ _ _ => rfl, fun binds => absurd binds impossible,
        fun _ => rfl⟩
  | halt allowed | enterRegion _ allowed | leaveRegion allowed =>
      intro machine
      have impossible : powers.regional ≠ false := by simp [allowed]
      exact ⟨fun _ regional => absurd regional impossible,
        fun _ regional => absurd regional impossible, fun _ => rfl,
        fun regional => absurd regional impossible⟩
  | load path => exact fun machine => by rw [load_leaves]; exact .unchanged rfl rfl rfl
  | command name args => exact fun machine => by rw [command_leaves]; exact .unchanged rfl rfl rfl
  | bind _ _ firstBounded nextBounded => exact .bind firstBounded nextBounded

theorem removeAt_bounded (index : Int) : Bounded powers (removeAt index : Action σ Word) := by
  intro machine
  cases removed : machine.toStacks.removeAt? index with
  | none =>
      have tentative : Tentative powers (failAt index : Action σ Word) := .failAt index
      simpa only [leaves, removeAt, removed] using tentative.bounded machine
  | some both =>
      have code : both.2.code = machine.code := by
        unfold Stacks.removeAt? at removed
        split at removed
        · cases removed
        · cases removed
          rfl
      simp only [leaves, removeAt, removed]
      exact .unchanged code rfl rfl

/-- What an action has no power to change stays as it is. -/
theorem Staged.bounded
    {action : Action σ Unit}
    (staged : Staged host powers action) :
    Bounded powers action := by
  induction staged with
  | tentative tentative => exact tentative.bounded
  | concluding concluding => exact concluding.bounded
  | move index => exact .bind (removeAt_bounded index) fun word => (Tentative.push word).bounded
  | bind tentative _ inductionHypothesis => exact .bind tentative.bounded inductionHypothesis

end Action
end Concatenative
