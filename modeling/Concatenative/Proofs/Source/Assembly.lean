import Concatenative.Source.Program
import Mathlib.Data.List.Infix

/-!
# Calls on open blocks

Whatever calls are made on open blocks, and whether or not they fail, each block has its lines and
the offset at which it was opened, a call changes the innermost blocks only, and it fails only for
want of a block. So the calls between the opening and the closing of a block give the block around
it one word, the list of the words of the lines.
-/

namespace Concatenative
namespace Source

/-- A call on the open blocks. -/
inductive Call where
  /-- Open a block. -/
  | push (start : Int)
  /-- Begin a new line. -/
  | newline
  /-- Put a word into the innermost block. -/
  | emit (word : Word)
  /-- Take the innermost block away. -/
  | flatten
  /-- Close the innermost block. -/
  | pop
  deriving DecidableEq

/-- What the call does; the words that it gives are not used. -/
def Call.action : Call → Assembly Unit
  | .push start => Assembly.push start
  | .newline => Assembly.newline
  | .emit word => Assembly.emit word
  | .flatten => do let _ ← Assembly.flatten
  | .pop => Assembly.pop

section Calls

variable {ε σ α : Type}

/-- The state that an action leaves, whether it fails or not. -/
def stateAfter (action : EStateM ε σ α) (state : σ) : σ :=
  match action state with
  | .ok _ after => after
  | .error _ after => after

/-- The state after calls that were made in turn, those after a failed one too. -/
def leftBy (perform : Call → EStateM ε σ Unit) (calls : List Call) (state : σ) : σ :=
  calls.foldl (fun state call => stateAfter (perform call) state) state

theorem leftBy_cons
    (perform : Call → EStateM ε σ Unit)
    (call : Call)
    (later : List Call)
    (state : σ) :
    leftBy perform (call :: later) state =
      leftBy perform later (stateAfter (perform call) state) := rfl

/-- The open blocks after calls that were made when no block was open. -/
def openAfter (calls : List Call) : List Block :=
  leftBy Call.action calls []

end Calls

/-! ## Two stacks

Open blocks can be kept as two stacks, of which nothing says that they are of one height or that a
block has a line. Calls on the two stacks look for a last line and for a start, and always find
them. -/

/-- Open blocks, innermost first, as the lines of each and as the offsets at which they were
opened. -/
structure Scaffold where
  /-- The lines of the blocks, each block in the order in which its lines were written. -/
  blocks : List (List (List Word)) := []
  /-- The offsets at which the blocks were opened. -/
  starts : List Int := []
  deriving DecidableEq

/-- What can go wrong on two stacks. -/
inductive Mishap where
  /-- There is no block to work on. -/
  | flaw (flaw : Flaw)
  /-- The innermost block has no line. -/
  | noLine
  /-- The stack of starts is empty. -/
  | noStart
  deriving DecidableEq

namespace Scaffold

/-- Open a block that has one line. -/
def push (start : Int) : EStateM Mishap Scaffold Unit := fun scaffold =>
  .ok () ⟨[[]] :: scaffold.blocks, start :: scaffold.starts⟩

/-- Add a line to the innermost block. -/
def newline : EStateM Mishap Scaffold Unit := fun scaffold =>
  match scaffold.blocks with
  | [] => .error (.flaw .missingOpenBrace) scaffold
  | lines :: outer => .ok () { scaffold with blocks := (lines ++ [[]]) :: outer }

/-- Add a word to the last line of the innermost block. -/
def emit (word : Word) : EStateM Mishap Scaffold Unit := fun scaffold =>
  match scaffold.blocks with
  | [] => .error (.flaw .missingOpenBrace) scaffold
  | lines :: outer =>
    match lines.getLast? with
    | none => .error .noLine scaffold
    | some line =>
      .ok () { scaffold with blocks := (lines.dropLast ++ [line ++ [word]]) :: outer }

/-- Take the innermost block and its start away, and join its lines, last line first. -/
def flatten : EStateM Mishap Scaffold (List Word) := fun scaffold =>
  match scaffold.blocks with
  | [] => .error (.flaw .missingOpenBrace) scaffold
  | lines :: outer =>
    match scaffold.starts with
    | [] => .error .noStart { scaffold with blocks := outer }
    | _ :: starts => .ok lines.reverse.flatten ⟨outer, starts⟩

/-- Take the innermost block away and add its words as a list to the block around it. -/
def pop : EStateM Mishap Scaffold Unit := do
  let words ← flatten
  emit (.list words)

/-- As many starts are recorded as blocks are open, and every open block has a line. -/
structure Upright (scaffold : Scaffold) : Prop where
  /-- Each block has its start. -/
  inStep : scaffold.starts.length = scaffold.blocks.length
  /-- Each block has a line. -/
  lined : ∀ lines ∈ scaffold.blocks, lines ≠ []

/-- The two stacks of some open blocks. -/
def ofBlocks (blocks : List Block) : Scaffold :=
  ⟨blocks.map Block.lines, blocks.map Block.start⟩

/-- What a call on open blocks comes to, seen on the two stacks. -/
def ofResult : EStateM.Result Flaw (List Block) Unit → EStateM.Result Mishap Scaffold Unit
  | .ok () after => .ok () (ofBlocks after)
  | .error flaw after => .error (.flaw flaw) (ofBlocks after)

theorem ofBlocks_upright (blocks : List Block) : (ofBlocks blocks).Upright where
  inStep := by simp [ofBlocks]
  lined := by
    intro lines present
    obtain ⟨block, _, rfl⟩ := List.mem_map.mp present
    simp [Block.lines]

end Scaffold

/-- What the call does to the two stacks. -/
def Call.onScaffold : Call → EStateM Mishap Scaffold Unit
  | .push start => Scaffold.push start
  | .newline => Scaffold.newline
  | .emit word => Scaffold.emit word
  | .flatten => do let _ ← Scaffold.flatten
  | .pop => Scaffold.pop

@[simp] theorem Block.lines_emit (word : Word) (block : Block) :
    (block.emit word).lines = block.lines.dropLast ++ [block.line ++ [word]] := by
  simp [emit, lines, line]

@[simp] theorem Block.getLast?_lines (block : Block) : block.lines.getLast? = some block.line := by
  simp [lines]

namespace Scaffold

theorem flatten_ofBlocks (block : Block) (outer : List Block) :
    flatten (ofBlocks (block :: outer)) = .ok block.words (ofBlocks outer) := by
  rw [Block.words_eq_flatten_reverse_lines]
  rfl

theorem emit_ofBlocks (word : Word) (block : Block) (outer : List Block) :
    emit word (ofBlocks (block :: outer)) = .ok () (ofBlocks (block.emit word :: outer)) := by
  simp only [emit, ofBlocks, List.map_cons, Block.getLast?_lines, Block.lines_emit]
  rfl

/-- A call does the same to the two stacks as to the open blocks: it ends alike and fails alike. -/
theorem onScaffold_ofBlocks (call : Call) (blocks : List Block) :
    call.onScaffold (ofBlocks blocks) = ofResult (call.action blocks) := by
  cases call with
  | push start => rfl
  | newline =>
      cases blocks with
      | nil => rfl
      | cons block outer =>
          have lines := block.lines_newline
          simp only [Call.onScaffold, Call.action, newline, Assembly.newline, ofBlocks, ofResult,
            List.map_cons, lines]
          rfl
  | emit word =>
      cases blocks with
      | nil => rfl
      | cons block outer => exact emit_ofBlocks word block outer
  | flatten =>
      cases blocks with
      | nil => rfl
      | cons block outer =>
          have flattened := flatten_ofBlocks block outer
          simp only [Call.onScaffold, bind, EStateM.bind, flattened]
          rfl
  | pop =>
      cases blocks with
      | nil => rfl
      | cons block outer =>
          have flattened := flatten_ofBlocks block outer
          simp only [Call.onScaffold, pop, bind, EStateM.bind, flattened]
          cases outer with
          | nil => rfl
          | cons parent outer => exact emit_ofBlocks _ parent outer

/-- After the same calls the two stacks are those of the open blocks. -/
theorem leftBy_onScaffold (calls : List Call) (blocks : List Block) :
    leftBy Call.onScaffold calls (ofBlocks blocks) = ofBlocks (leftBy Call.action calls blocks) := by
  induction calls generalizing blocks with
  | nil => rfl
  | cons call later inductionHypothesis =>
      have step : stateAfter call.onScaffold (ofBlocks blocks) =
          ofBlocks (stateAfter call.action blocks) := by
        simp only [stateAfter, onScaffold_ofBlocks]
        cases call.action blocks <;> rfl
      rw [leftBy_cons, leftBy_cons, step, inductionHypothesis]

/-- The two stacks after calls that were made when they were empty. -/
def builtBy (calls : List Call) : Scaffold :=
  leftBy Call.onScaffold calls {}

theorem builtBy_eq (calls : List Call) : builtBy calls = ofBlocks (openAfter calls) :=
  leftBy_onScaffold calls []

end Scaffold

/-! ## One call -/

/-- The call wants a block that is not open. -/
def Call.Unfounded : Call → List Block → Prop
  | .push _, _ => False
  | .newline, blocks => blocks = []
  | .emit _, blocks => blocks = []
  | .flatten, blocks => blocks = []
  | .pop, blocks => blocks = [] ∨ blocks.length = 1

/-- A block becomes another by a word at the end of its last line. -/
def Block.Gains (word : Word) (before after : Block) : Prop :=
  after.start = before.start ∧
    ∃ earlier line, before.lines = earlier ++ [line] ∧ after.lines = earlier ++ [line ++ [word]]

/-- How a call changes open blocks, innermost first, when it does not fail. -/
inductive Call.Changes : Call → List Block → List Block → Prop where
  /-- A block with one empty line is opened. -/
  | push {start : Int} {opened : Block} {blocks : List Block}
      (started : opened.start = start)
      (empty : opened.lines = [[]]) :
      Changes (.push start) blocks (opened :: blocks)
  /-- The innermost block has a line more. -/
  | newline {before after : Block} {outer : List Block}
      (same : after.start = before.start)
      (begun : after.lines = before.lines ++ [[]]) :
      Changes .newline (before :: outer) (after :: outer)
  /-- The innermost block has a word more. -/
  | emit {word : Word} {before after : Block} {outer : List Block}
      (gains : before.Gains word after) :
      Changes (.emit word) (before :: outer) (after :: outer)
  /-- The innermost block is taken away. -/
  | flatten {block : Block} {outer : List Block} :
      Changes .flatten (block :: outer) outer
  /-- The innermost block is taken away, and the one around it has a word more. -/
  | pop {block before after : Block} {outer : List Block}
      (gains : before.Gains (.list block.lines.reverse.flatten) after) :
      Changes .pop (block :: before :: outer) (after :: outer)

theorem Block.gains_emit (word : Word) (block : Block) : block.Gains word (block.emit word) := by
  refine ⟨rfl, block.earlier.reverse, block.line, rfl, ?_⟩
  rw [lines_emit, lines, List.dropLast_concat]

/-- A call that wants a block fails, and then no block is open. -/
theorem Call.action_of_unfounded
    {call : Call}
    {blocks : List Block}
    (unfounded : call.Unfounded blocks) :
    call.action blocks = .error .missingOpenBrace [] := by
  cases call with
  | push start => exact unfounded.elim
  | newline | emit | flatten =>
      cases unfounded
      rfl
  | pop =>
      obtain rfl | single := unfounded
      · rfl
      · obtain ⟨block, rfl⟩ := List.length_eq_one_iff.mp single
        rfl

/-- Any other call succeeds. -/
theorem Call.exists_changes
    {call : Call}
    {blocks : List Block}
    (founded : ¬ call.Unfounded blocks) :
    ∃ after, call.action blocks = .ok () after ∧ call.Changes blocks after := by
  cases call with
  | push start => exact ⟨_, rfl, .push rfl rfl⟩
  | newline =>
      obtain ⟨block, outer, rfl⟩ := List.exists_cons_of_ne_nil founded
      exact ⟨_, rfl, .newline rfl block.lines_newline⟩
  | emit word =>
      obtain ⟨block, outer, rfl⟩ := List.exists_cons_of_ne_nil founded
      exact ⟨_, rfl, .emit (block.gains_emit word)⟩
  | flatten =>
      obtain ⟨block, outer, rfl⟩ := List.exists_cons_of_ne_nil founded
      exact ⟨_, rfl, .flatten⟩
  | pop =>
      obtain ⟨present, several⟩ := not_or.mp founded
      obtain ⟨block, around, rfl⟩ := List.exists_cons_of_ne_nil present
      cases around with
      | nil => exact absurd rfl several
      | cons parent outer =>
          have gains := parent.gains_emit (.list block.words)
          refine ⟨_, rfl, .pop ?_⟩
          rwa [← Block.words_eq_flatten_reverse_lines]

/-! ## Balanced calls -/

/-- Calls that are made in turn, none of which fails, lead from open blocks to others. -/
inductive Runs : List Call → List Block → List Block → Prop where
  /-- There are no more calls. -/
  | done (blocks : List Block) : Runs [] blocks blocks
  /-- The first call succeeds, and the others are made on what it leaves. -/
  | step {call : Call} {later : List Call} {before middle after : List Block}
      (performed : call.action before = .ok () middle)
      (runs : Runs later middle after) :
      Runs (call :: later) before after

theorem Runs.append
    {front later : List Call}
    {before middle after : List Block}
    (first : Runs front before middle)
    (second : Runs later middle after) :
    Runs (front ++ later) before after := by
  induction first with
  | done => exact second
  | step performed _ inductionHypothesis => exact .step performed (inductionHypothesis second)

theorem Runs.leftBy_eq
    {calls : List Call}
    {before after : List Block}
    (runs : Runs calls before after) :
    leftBy Call.action calls before = after := by
  induction runs with
  | done => rfl
  | @step call later before middle after performed _ inductionHypothesis =>
      have left : stateAfter call.action before = middle := by
        simp only [stateAfter, performed]
      rw [leftBy_cons, left, inductionHypothesis]

/-- A call that succeeds does not touch blocks further out than it needs. -/
theorem Call.action_append
    {call : Call}
    {before after : List Block}
    (performed : call.action before = .ok () after)
    (below : List Block) :
    call.action (before ++ below) = .ok () (after ++ below) := by
  cases call with
  | push start =>
      cases performed
      rfl
  | newline | emit | flatten =>
      cases before with
      | nil => cases performed
      | cons block outer =>
          cases performed
          rfl
  | pop =>
      match before, performed with
      | block :: parent :: outer, rfl => rfl

/-- Calls of which none fails do not touch blocks further out than they need. -/
theorem Runs.above
    {calls : List Call}
    {before after : List Block}
    (runs : Runs calls before after)
    (below : List Block) :
    Runs calls (before ++ below) (after ++ below) := by
  induction runs with
  | done blocks => exact .done (blocks ++ below)
  | step performed _ inductionHypothesis =>
      exact .step (Call.action_append performed below) inductionHypothesis

/-- By how many a call changes the number of open blocks. -/
def Call.rise : Call → Int
  | .push _ => 1
  | .newline => 0
  | .emit _ => 0
  | .flatten => -1
  | .pop => -1

/-- By how many calls change the number of open blocks. -/
def rises : List Call → Int
  | [] => 0
  | call :: later => call.rise + rises later

theorem rises_cons (call : Call) (later : List Call) :
    rises (call :: later) = call.rise + rises later := rfl

/-- The calls take away every block that they open, and no other. -/
structure BalancedCalls (calls : List Call) : Prop where
  /-- As many blocks are taken away as are opened. -/
  level : rises calls = 0
  /-- At no time have more been taken away than were opened. -/
  above : ∀ front, front <+: calls → 0 ≤ rises front

theorem Call.Changes.length_eq
    {call : Call}
    {before after : List Block}
    (changes : call.Changes before after) :
    (after.length : Int) = before.length + call.rise := by
  cases changes <;> simp only [rise, List.length_cons] <;> omega

/-- A call on an open block that leaves one open has the blocks that it wants. -/
theorem Call.founded_of_rise
    {call : Call}
    {blocks : List Block}
    (present : 0 < blocks.length)
    (stays : 0 < blocks.length + call.rise) :
    ¬ call.Unfounded blocks := by
  have opened : blocks ≠ [] := List.ne_nil_of_length_pos present
  cases call with
  | push start => exact not_false
  | newline | emit | flatten => exact opened
  | pop =>
      rintro (empty | single)
      · exact opened empty
      · rw [single] at stays
        exact absurd stays (by decide)

/-- Calls that leave a block open at all times do not fail. -/
theorem exists_runs_of_open
    {calls : List Call}
    {blocks : List Block}
    (stays : ∀ front, front <+: calls → 0 < blocks.length + rises front) :
    ∃ after, Runs calls blocks after ∧ (after.length : Int) = blocks.length + rises calls := by
  induction calls generalizing blocks with
  | nil => exact ⟨blocks, .done blocks, by simp [rises]⟩
  | cons call later inductionHypothesis =>
      have present : 0 < blocks.length := by simpa [rises] using stays [] List.nil_prefix
      have first : 0 < blocks.length + call.rise := by
        simpa [rises] using stays [call] (List.prefix_append [call] later)
      obtain ⟨middle, performed, changes⟩ := Call.exists_changes (call.founded_of_rise present first)
      have length := changes.length_eq
      have later : ∀ front, front <+: later → 0 < middle.length + rises front := by
        intro front inside
        have above := stays (call :: front) ((List.prefix_cons_inj call).mpr inside)
        rw [rises_cons] at above
        omega
      obtain ⟨after, runs, deep⟩ := inductionHypothesis later
      refine ⟨after, .step performed runs, ?_⟩
      rw [rises_cons]
      omega

/-- Balanced calls leave a block open that was open before, and the blocks around it alone. -/
theorem BalancedCalls.exists_runs
    {calls : List Call}
    (balanced : BalancedCalls calls)
    (block : Block) :
    ∃ after, Runs calls [block] [after] := by
  have stays : ∀ front, front <+: calls → 0 < [block].length + rises front := by
    intro front inside
    have above := balanced.above front inside
    rw [List.length_singleton]
    omega
  obtain ⟨after, runs, deep⟩ := exists_runs_of_open stays
  rw [balanced.level, List.length_singleton] at deep
  obtain ⟨single, rfl⟩ := List.length_eq_one_iff.mp (Int.ofNat_inj.mp deep)
  exact ⟨single, runs⟩

/-- Whatever calls have been made, those on two stacks that look for a last line and a start always
find them and do what is done to the open blocks. The next call fails for want of a block, which is
reported where it was made and leaves no block open, or it changes the innermost blocks only. And
if a block is opened, balanced calls are made on it and it is closed, then none of these fails and
the block around it has a word more, the list of the words of the lines, last line first. -/
theorem calls_keep_shape (text : List Char) (calls : List Call) :
    ((Scaffold.builtBy calls).Upright ∧
      Scaffold.builtBy calls = .ofBlocks (openAfter calls) ∧
      ∀ call : Call,
        call.onScaffold (Scaffold.builtBy calls) =
          Scaffold.ofResult (call.action (openAfter calls))) ∧
    (∀ (call : Call) (offset : Int),
      (call.Unfounded (openAfter calls) →
        assemble text offset call.action (openAfter calls) =
            .error (.flawed (.locate .missingOpenBrace text offset)) ∧
          stateAfter call.action (openAfter calls) = []) ∧
      (¬ call.Unfounded (openAfter calls) →
        ∃ after, assemble text offset call.action (openAfter calls) = .ok after ∧
          stateAfter call.action (openAfter calls) = after ∧
          call.Changes (openAfter calls) after)) ∧
    ∀ (start : Int) (inner : List Call), BalancedCalls inner →
      ∃ body, Runs inner [{ start }] [body] ∧
        ∀ parent outer, ∃ changed,
          Runs (.push start :: (inner ++ [.pop])) (parent :: outer) (changed :: outer) ∧
          parent.Gains (.list body.lines.reverse.flatten) changed := by
  refine ⟨?_, ?_, ?_⟩
  · rw [Scaffold.builtBy_eq]
    exact ⟨Scaffold.ofBlocks_upright _, rfl, fun call => Scaffold.onScaffold_ofBlocks call _⟩
  · intro call offset
    constructor
    · intro unfounded
      have failed := Call.action_of_unfounded unfounded
      simp only [assemble, stateAfter, failed, and_self]
    · intro founded
      obtain ⟨after, performed, changes⟩ := Call.exists_changes founded
      refine ⟨after, ?_, ?_, changes⟩
      · simp only [assemble, performed]
      · simp only [stateAfter, performed]
  · intro start inner balanced
    obtain ⟨body, runs⟩ := balanced.exists_runs { start }
    refine ⟨body, runs, fun parent outer => ?_⟩
    have gains := parent.gains_emit (.list body.words)
    rw [Block.words_eq_flatten_reverse_lines] at gains
    have closed : Runs [.pop] (body :: parent :: outer) (parent.emit (.list body.words) :: outer) :=
      .step rfl (.done _)
    have opened : Runs (.push start :: (inner ++ [.pop])) (parent :: outer) _ :=
      .step rfl ((runs.above (parent :: outer)).append closed)
    rw [Block.words_eq_flatten_reverse_lines] at opened
    exact ⟨_, opened, gains⟩

/-- Three calls fail before a block is opened, a block within it gives a list, and two lines of that
change places. -/
theorem calls_keep_shape_failing :
    let calls : List Call :=
      [.flatten, .push 0, .emit (.atom "a"), .pop, .newline, .push 5, .emit (.int 1)]
    let inner : List Call :=
      [.emit (.atom "b"), .newline, .push 9, .emit (.atom "c"), .newline, .emit (.atom "d"), .pop]
    openAfter calls = [⟨5, [], [.int 1]⟩] ∧
      Scaffold.builtBy calls = ⟨[[[.int 1]]], [5]⟩ ∧
      assemble "\x7d".toList 0 Call.pop.action (openAfter calls) =
        .error (.flawed (.locate .missingOpenBrace "\x7d".toList 0)) ∧
      BalancedCalls inner ∧
      Runs (.push 7 :: (inner ++ [.pop])) [⟨5, [], [.int 1]⟩]
        [⟨5, [], [.list [.list [.atom "d", .atom "c"], .atom "b"], .int 1]⟩] := by
  intro calls inner
  obtain ⟨⟨_, same, _⟩, answers, nests⟩ := calls_keep_shape "\x7d".toList calls
  have alone : Call.pop.Unfounded (openAfter calls) := .inr rfl
  have balanced : BalancedCalls inner := by
    refine ⟨by decide, fun front inside => ?_⟩
    have above : ∀ front ∈ inner.inits, 0 ≤ rises front := by decide
    exact above front ((List.mem_inits front inner).mpr inside)
  obtain ⟨_, _, closes⟩ := nests 7 inner balanced
  obtain ⟨changed, runs, _⟩ := closes ⟨5, [], [.int 1]⟩ []
  have reached : [⟨5, [], [.list [.list [.atom "d", .atom "c"], .atom "b"], .int 1]⟩] = [changed] :=
    runs.leftBy_eq
  rw [← reached] at runs
  exact ⟨rfl, same, ((answers .pop 0).1 alone).1, balanced, runs⟩

end Source
end Concatenative
