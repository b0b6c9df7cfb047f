import Concatenative.Library
import Concatenative.Machine.Question
import Concatenative.Proofs.Machine.Rewinding
import Concatenative.Proofs.Machine.Steps

/-!
# Protected regions

A step changes the recovery stack at its top only: it opens a region, leaves the innermost one, or
ends the run. So a snapshot stays what it is as long as it stays, and when the region that made it
fails, the machine goes back to exactly the state in which the region was entered.
-/

namespace Concatenative

/-- What a step can do to the recovery stack. -/
inductive Recast : List Snapshot → List Snapshot → Prop where
  /-- Nothing. -/
  | same (regions : List Snapshot) : Recast regions regions
  /-- Open a region. -/
  | entered (snapshot : Snapshot) (regions : List Snapshot) : Recast regions (snapshot :: regions)
  /-- Leave the innermost region, if there is one. -/
  | left (regions : List Snapshot) : Recast regions (regions.drop 1)
  /-- Close all regions. -/
  | closed (regions : List Snapshot) : Recast regions []

/-- What is at the bottom of the recovery stack stays there as long as the stack is high enough. -/
theorem Recast.keeps
    {before after bottom : List Snapshot}
    (recast : Recast before after)
    (kept : bottom <:+ before)
    (deep : bottom.length ≤ after.length) :
    bottom <:+ after := by
  cases recast with
  | same => exact kept
  | entered snapshot => exact kept.trans (List.suffix_cons snapshot before)
  | left =>
      cases before with
      | nil => exact kept
      | cons snapshot regions =>
          rcases List.suffix_cons_iff.mp kept with whole | inside
          · rw [whole, List.length_cons, List.length_drop, List.length_cons] at deep
            omega
          · exact inside
  | closed =>
      have empty : bottom = [] := List.length_eq_zero_iff.mp (Nat.le_zero.mp deep)
      subst empty
      exact List.nil_suffix

namespace Action

variable {σ : Type} {α : Type} {host : Host σ}

/-- An action leaves the recovery stack alone, whether it fails or not. -/
def KeepsRegions (action : Action σ α) : Prop :=
  Relates (fun before after => after.recovery = before.recovery) action

theorem KeepsRegions.bind
    {β : Type}
    {first : Action σ α}
    {next : α → Action σ β}
    (firstKeeps : KeepsRegions first)
    (nextKeeps : ∀ value, KeepsRegions (next value)) :
    KeepsRegions (first >>= next) :=
  Relates.bind (fun _ _ _ earlier later => later.trans earlier) firstKeeps nextKeeps

theorem removeAt_keepsRegions (index : Int) :
    KeepsRegions (removeAt index : Action σ Word) := by
  intro machine
  cases removed : machine.toStacks.removeAt? index with
  | none =>
      have tentative : Tentative {} (failAt index : Action σ Word) := .failAt index
      have kept := (tentative.revocable machine).recovery_eq
      simpa only [leaves, removeAt, removed] using kept
  | some both => simp only [leaves, removeAt, removed]

theorem Tentative.keepsRegions
    {action : Action σ α}
    (tentative : Tentative .all action) :
    KeepsRegions action :=
  fun machine => (tentative.revocable machine).recovery_eq

theorem Concluding.keepsRegions
    {powers : Powers}
    {action : Action σ α}
    (concluding : Concluding host powers action)
    (confined : powers.regional = false) :
    KeepsRegions action := by
  induction concluding with
  | pure | interrupt | codeStack | push | putCode | loadCode | define | echo | prompt =>
      exact fun machine => rfl
  | halt allowed | enterRegion _ allowed | leaveRegion allowed =>
      rw [confined] at allowed
      cases allowed
  | load path => exact fun machine => by rw [load_leaves]
  | command name args => exact fun machine => by rw [command_leaves]
  | bind _ _ firstKeeps nextKeeps => exact .bind firstKeeps nextKeeps

theorem Staged.keepsRegions
    {powers : Powers}
    {action : Action σ Unit}
    (staged : Staged host powers action)
    (confined : powers.regional = false) :
    KeepsRegions action := by
  induction staged with
  | tentative tentative => exact tentative.allowAll.keepsRegions
  | concluding concluding => exact concluding.keepsRegions confined
  | move index => exact .bind (removeAt_keepsRegions index) fun word machine => rfl
  | bind tentative _ inductionHypothesis =>
      exact .bind tentative.allowAll.keepsRegions inductionHypothesis

/-! ## Built-in words that manage regions -/

/-- An action changes the recovery stack at its top only, or clears it, whether it fails or not. -/
def RecastsRegions (action : Action σ α) : Prop :=
  Relates (fun before after => Recast before.recovery after.recovery) action

theorem KeepsRegions.recasts
    {action : Action σ α}
    (keeps : KeepsRegions action) :
    RecastsRegions action := by
  intro machine
  rw [keeps machine]
  exact .same machine.recovery

section Sequences

variable {β : Type} {first : Action σ α} {next : α → Action σ β}

theorem KeepsRegions.then_recasts
    (firstKeeps : KeepsRegions first)
    (nextRecasts : ∀ value, RecastsRegions (next value)) :
    RecastsRegions (first >>= next) := by
  refine Relates.compose ?_ ?_ firstKeeps nextRecasts
  · intro before after kept
    rw [kept]
    exact .same before.recovery
  · intro before middle after kept recast
    rwa [kept] at recast

theorem RecastsRegions.then_keeps
    (firstRecasts : RecastsRegions first)
    (nextKeeps : ∀ value, KeepsRegions (next value)) :
    RecastsRegions (first >>= next) := by
  refine Relates.compose ?_ ?_ firstRecasts nextKeeps
  · intro before after recast
    exact recast
  · intro before middle after recast kept
    rwa [kept]

end Sequences

/-- What a built-in word can do to the recovery stack. -/
theorem perform_recasts (host : Host σ) (builtin : Builtin) :
    RecastsRegions (perform host builtin) := by
  cases manages : builtin.powers.regional with
  | false => exact ((perform_staged host builtin).keepsRegions manages).recasts
  | true =>
      cases builtin with
      | bye => exact fun machine => .closed machine.recovery
      | unprotect => exact fun machine => .left machine.recovery
      | prompt =>
          refine Tentative.pop.keepsRegions.then_recasts fun word => ?_
          have asks : KeepsRegions (Action.prompt host word.intoString) := fun machine => rfl
          refine asks.then_recasts fun reply => ?_
          cases reply with
          | line text => exact (Tentative.push (.str text)).keepsRegions.recasts
          | endOfInput =>
              have halts : RecastsRegions (halt : Action σ Unit) :=
                fun machine => .closed machine.recovery
              exact halts.then_keeps fun _ => (Tentative.push (.str "")).keepsRegions
          | interrupted => exact fun machine => .same machine.recovery
      | protect =>
          refine (Tentative.popAs Word.asList).keepsRegions.then_recasts fun body => ?_
          refine (Tentative.popAs Word.asList).keepsRegions.then_recasts fun handler => ?_
          have enters : RecastsRegions (enterRegion handler : Action σ Unit) :=
            fun machine => .entered _ machine.recovery
          have follows : Tentative .all
              (putCode (.atom Builtin.unprotect.name) >>= fun _ => loadCode body : Action σ Unit) :=
            .bind (.putCode _ rfl) fun _ => .loadCode body rfl
          exact enters.then_keeps fun _ => follows.keepsRegions
      | _ => cases manages

/-- What executing a name can do to the recovery stack. -/
theorem execute_recasts (host : Host σ) (name : String) :
    RecastsRegions (execute host name) := by
  refine (Tentative.lookup name).keepsRegions.then_recasts fun binding => ?_
  cases binding with
  | primitive builtin => exact perform_recasts host builtin
  | defined effect word => exact (Tentative.call effect word rfl rfl).keepsRegions.recasts

/-- A word that opens a region and finds both its lists leaves the body on the code stack, above the
word that closes the region. -/
theorem perform_protect
    (host : Host σ)
    {machine : Machine σ}
    {body handler data : List Word}
    (operands : machine.data = .list body :: .list handler :: data) :
    ∃ journal,
      perform host .protect machine =
        .ok ()
          { machine with
            data
            code := body.reverse ++ .atom Builtin.unprotect.name :: machine.code
            recovery :=
              ⟨machine.dictionary, data, handler.reverse ++ machine.code⟩ :: machine.recovery
            journal } := by
  have first := popAs_of_cons operands (rfl : Word.asList (.list body) = .ok body)
  have second := popAs_of_cons
    (rfl : { machine with
        data := .list handler :: data
        journal := .popped (.list body) :: machine.journal }.data = .list handler :: data)
    (rfl : Word.asList (.list handler) = .ok handler)
  exact ⟨_, (bind_of_ok first).trans ((bind_of_ok second).trans rfl)⟩

end Action

namespace Machine

variable {σ : Type} {host : Host σ} {machine : Machine σ}

/-- An atom that fails has not changed the recovery stack. -/
theorem recovery_of_failure
    {name : String}
    {rest : List Word}
    {error : EvalError}
    {failed : Machine σ}
    (failure : Action.execute host name (machine.begun name rest) = .error (.eval error) failed) :
    failed.recovery = machine.recovery := by
  rw [((Action.execute_staged host name).rewinds failure).recovery_eq, recovery_begun]

@[simp] theorem recovery_abandon (name : String) (error : EvalError) :
    (ofOutcome (machine.abandon name error)).recovery = machine.recovery := by
  unfold abandon
  split <;> rfl

/-- A step changes the recovery stack at its top only, or clears it. -/
theorem Takes.recast
    {progress : Progress σ}
    (takes : Takes host machine progress) :
    Recast machine.recovery (ofProgress progress).recovery := by
  cases takes with
  | finished done => exact .same machine.recovery
  | shifted word rest literal next => exact .same machine.recovery
  | executed name rest after next done =>
      have recast := Action.execute_recasts host name (machine.begun name rest)
      rwa [Action.leaves_of_ok done, recovery_begun] at recast
  | recovered name rest error failed snapshot outer next failure regions =>
      rw [ofProgress, recovery_recover, ← recovery_of_failure failure, regions]
      exact .left (snapshot :: outer)
  | abandoned name rest error failed next failure regions =>
      rw [ofProgress, recovery_abandon, recovery_of_failure failure]
      exact .same machine.recovery
  | broken name rest fault failed next failure foreign =>
      have recast := Action.execute_recasts host name (machine.begun name rest)
      rwa [Action.leaves_of_error failure, recovery_begun] at recast

/-- In every state of the first steps of a run, at least as many regions are open as a number
says. -/
def StaysWithin (host : Host σ) (depth steps : Nat) (machine : Machine σ) : Prop :=
  ∀ earlier ≤ steps, depth ≤ (machine.reach host earlier).recovery.length

/-- A run keeps what is at the bottom of the recovery stack as long as the stack is high enough. -/
theorem reach_keeps
    {steps : Nat}
    {bottom : List Snapshot}
    (kept : bottom <:+ machine.recovery)
    (within : machine.StaysWithin host bottom.length steps) :
    bottom <:+ (machine.reach host steps).recovery := by
  induction steps generalizing machine with
  | zero => exact kept
  | succ steps inductionHypothesis =>
      have recast := (step_takes host machine).recast
      have deep := within 1 (by omega)
      cases progress : machine.step host with
      | ended outcome =>
          rw [progress] at recast
          rw [reach_of_ended progress] at deep ⊢
          exact recast.keeps kept deep
      | running next =>
          rw [progress] at recast
          rw [reach_of_running progress] at deep ⊢
          refine inductionHypothesis (recast.keeps kept deep) ?_
          intro earlier bound
          rw [← reach_of_running progress]
          exact within (earlier + 1) (by omega)

/-- A word that opens a region and finds both its lists does so. -/
theorem step_enters
    (host : Host σ)
    {name : String}
    {body handler data code : List Word}
    (next : machine.code = .atom name :: code)
    (bound : machine.dictionary.get? name = some (.primitive .protect))
    (operands : machine.data = .list body :: .list handler :: data) :
    ∃ entered,
      machine.step host = .running entered ∧
        entered.recovery =
          ⟨machine.dictionary, data, handler.reverse ++ code⟩ :: machine.recovery := by
  have lists : (machine.begun name code).data = .list body :: .list handler :: data := by
    rw [data_begun, operands]
  obtain ⟨journal, performed⟩ := Action.perform_protect host lists
  refine ⟨_, step_of_perform_ok next bound performed, ?_⟩
  dsimp only
  rw [dictionary_begun, code_begun, recovery_begun]

/-- An atom that fails takes the machine to the snapshot of the innermost region. -/
theorem step_recovers
    {name : String}
    {rest : List Word}
    {error : EvalError}
    {failed : Machine σ}
    {snapshot : Snapshot}
    {outer : List Snapshot}
    (next : machine.code = .atom name :: rest)
    (failure : Action.execute host name (machine.begun name rest) = .error (.eval error) failed)
    (regions : machine.recovery = snapshot :: outer) :
    ∃ restored,
      machine.step host = .running restored ∧
        restored.dictionary = snapshot.dictionary ∧
        restored.data = .str (name ++ " error: " ++ error.message) :: snapshot.data ∧
        restored.code = snapshot.code ∧
        restored.recovery = outer := by
  have innermost : failed.recovery = snapshot :: outer := by
    rw [recovery_of_failure failure, regions]
  refine ⟨_, step_of_failure_inside next failure innermost, ?_⟩
  cases tracing : failed.tracing <;>
    simp [recover, trace, note, mapStacks, Stacks.push, diagnostic, tracing]

/-- A protected region that fails is undone. As long as the recovery stack never gets lower than it
was when the region was entered, it ends with the snapshot of the region. And an atom that fails
while that snapshot is the innermost one takes the machine back to the dictionary, the data and the
code at the entry of the region, with a diagnostic on top of the data and the handler to follow. -/
theorem region_is_undone
    (host : Host σ)
    (machine : Machine σ)
    {name : String}
    {body handler data code : List Word}
    (next : machine.code = .atom name :: code)
    (bound : machine.dictionary.get? name = some (.primitive .protect))
    (operands : machine.data = .list body :: .list handler :: data) :
    ∃ entered,
      machine.step host = .running entered ∧
      ∀ steps final,
        entered.reach host steps = final →
        entered.StaysWithin host (machine.recovery.length + 1) steps →
        (⟨machine.dictionary, data, handler.reverse ++ code⟩ :: machine.recovery) <:+
            final.recovery ∧
        ∀ culprit rest error failed,
          final.recovery.length = machine.recovery.length + 1 →
          final.code = .atom culprit :: rest →
          Action.execute host culprit (final.begun culprit rest) = .error (.eval error) failed →
          ∃ restored,
            final.step host = .running restored ∧
            restored.dictionary = machine.dictionary ∧
            restored.data = .str (culprit ++ " error: " ++ error.message) :: data ∧
            restored.code = handler.reverse ++ code ∧
            restored.recovery = machine.recovery := by
  obtain ⟨entered, progress, regions⟩ := step_enters host next bound operands
  refine ⟨entered, progress, ?_⟩
  rintro steps final rfl within
  have kept := reach_keeps ⟨[], regions.symm⟩ within
  refine ⟨kept, ?_⟩
  intro culprit rest error failed height code failure
  have innermost := kept.eq_of_length height.symm
  exact step_recovers code failure innermost.symm

/-- A body that binds a name and empties the data stack before it fails. -/
theorem region_is_undone_after_clear :
    let machine : Machine Answer :=
      { Library.bare true {} with
        data :=
          [.list [.atom "drop", .atom "clear", .atom "x", .atom "=", .int 7],
            .list [.atom "echo"], .int 1]
        code := [.atom "try", .int 2] }
    ∃ entered final restored,
      machine.step Answer.host = .running entered ∧
      entered.reach Answer.host 3 = final ∧
      final.data = [] ∧
      final.step Answer.host = .running restored ∧
      restored.dictionary = machine.dictionary ∧
      restored.data = [.str "drop error: stack underflow", .int 1] ∧
      restored.code = [.atom "echo", .int 2] ∧
      restored.recovery = [] := by
  intro machine
  obtain ⟨entered, progress, undone⟩ := region_is_undone Answer.host machine rfl rfl rfl
  have within : entered.StaysWithin Answer.host 1 3 := by
    intro earlier bound
    cases progress
    match earlier, bound with
    | 0, _ | 1, _ | 2, _ | 3, _ => exact Nat.le_refl 1
  cases progress
  obtain ⟨restored, recovered⟩ := (undone 3 _ rfl within).2 "drop" _ _ _ rfl rfl rfl
  exact ⟨_, _, restored, rfl, rfl, rfl, recovered⟩

end Machine
end Concatenative
