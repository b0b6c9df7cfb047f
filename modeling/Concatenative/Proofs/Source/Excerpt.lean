import Concatenative.Proofs.Source.Location
import Concatenative.Source.SyntaxError
import Mathlib.Data.List.Basic

/-!
# Excerpts

The context of an error shows the line of the offending character with two lines on either side,
and a caret on a line of its own. The caret leaves room for numbers of four digits: up to line 9999
it stands under the offending character, and on later lines to the left of it.
-/

namespace Concatenative
namespace Source

/-! ## Numbered lines -/

/-- Lines under their numbers, which count on from the first one. -/
def numberedLines (first : Nat) (lines : List (List Char)) : List String :=
  (lines.zipIdx first).map fun (line, number) => numberedLine number line

/-- What stands in front of a line with a number. -/
def margin (number : Nat) : String :=
  Text.padLeft 4 ' ' number.repr ++ ": "

theorem toList_numberedLine (number : Nat) (line : List Char) :
    (numberedLine number line).toList = (margin number).toList ++ line := by
  rw [numberedLine, String.toList_append, String.toList_ofList]
  rfl

theorem length_margin (number : Nat) : (margin number).length = max 4 number.repr.length + 2 := by
  have colon : ": ".length = 2 := rfl
  rw [margin, Text.padLeft, String.length_append, String.length_append, String.length_ofList,
    List.length_replicate, colon]
  omega

/-- Numbers of up to four digits have margins of the same width. -/
theorem length_margin_eq_iff (number : Nat) : (margin number).length = 6 ↔ number ≤ 9999 := by
  have digits : number.repr.length ≤ 4 ↔ number < 10 ^ 4 := Nat.length_repr_le_iff (by decide)
  rw [length_margin]
  omega

theorem idxOf_caretLine (column : Nat) :
    (caretLine (column + 1 : Nat)).toList.idxOf '^' = 6 + column := by
  have room : (((column + 1 : Nat) : Int) - 1).toNat = column := by omega
  have blank : '^' ∉ List.replicate (6 + column) ' ' :=
    fun present => absurd (List.eq_of_mem_replicate present) (by decide)
  rw [caretLine, room, String.toList_append, String.toList_ofList, List.replicate_append_replicate,
    List.idxOf_append_of_notMem blank, List.length_replicate]
  rfl

/-! ## The window -/

/-- What an excerpt shows of numbered lines. -/
def excerptOf (position : Position) (around : Int) (lines : List (List Char × Nat)) : List String :=
  (lines.filter fun (_, number) =>
    position.line ≤ number + around && number ≤ position.line + around).flatMap
    fun (line, number) =>
      numberedLine number line ::
        if number = position.line then [caretLine position.column] else []

theorem excerptLines_eq_excerptOf
    (text : List Char)
    (position : Position)
    (around : Int) :
    excerptLines text position around = excerptOf position around ((Text.linesOf text).zipIdx 1) :=
  rfl

theorem excerptOf_append
    (position : Position)
    (around : Int)
    (front back : List (List Char × Nat)) :
    excerptOf position around (front ++ back) =
      excerptOf position around front ++ excerptOf position around back := by
  rw [excerptOf, List.filter_append, List.flatMap_append]
  rfl

theorem excerptOf_eq_nil
    {position : Position}
    {around : Int}
    {lines : List (List Char)}
    {first : Nat}
    (far : ∀ number : Nat, first ≤ number → number < first + lines.length →
      number + around < position.line ∨ position.line + around < number) :
    excerptOf position around (lines.zipIdx first) = [] := by
  have none : (lines.zipIdx first).filter (fun (_, number) =>
      position.line ≤ number + around && number ≤ position.line + around) = [] := by
    rw [List.filter_eq_nil_iff]
    intro entry present
    have apart := far _ (List.le_snd_of_mem_zipIdx present)
      (List.snd_lt_add_of_mem_zipIdx present)
    simp only [Bool.and_eq_true, decide_eq_true_eq]
    omega
  rw [excerptOf, none]
  rfl

theorem excerptOf_eq_numberedLines
    {position : Position}
    {around : Int}
    {lines : List (List Char)}
    {first : Nat}
    (near : ∀ number : Nat, first ≤ number → number < first + lines.length →
      position.line ≤ number + around ∧ number ≤ position.line + around ∧ number ≠ position.line) :
    excerptOf position around (lines.zipIdx first) = numberedLines first lines := by
  have close : ∀ entry ∈ lines.zipIdx first, position.line ≤ entry.2 + around ∧
      entry.2 ≤ position.line + around ∧ entry.2 ≠ position.line :=
    fun entry present =>
      near _ (List.le_snd_of_mem_zipIdx present) (List.snd_lt_add_of_mem_zipIdx present)
  have all : (lines.zipIdx first).filter (fun (_, number) =>
      position.line ≤ number + around && number ≤ position.line + around) =
        lines.zipIdx first := by
    rw [List.filter_eq_self]
    intro entry present
    simp only [Bool.and_eq_true, decide_eq_true_eq]
    exact ⟨(close entry present).1, (close entry present).2.1⟩
  rw [excerptOf, all, numberedLines, List.map_eq_flatMap, List.flatMap_def, List.flatMap_def]
  refine congrArg List.flatten (List.map_congr_left ?_)
  intro entry present
  exact congrArg (numberedLine entry.2 entry.1 :: ·) (if_neg (close entry present).2.2)

variable {column : Int} {around : Nat}

/-- Of the lines before a position the nearest ones are shown. -/
theorem excerptOf_earlier (earlier : List (List Char)) :
    excerptOf ⟨(earlier.length + 1 : Nat), column⟩ around (earlier.zipIdx 1) =
      numberedLines (earlier.length - around + 1) (earlier.drop (earlier.length - around)) := by
  have size : 1 + (earlier.take (earlier.length - around)).length =
      earlier.length - around + 1 := by
    rw [List.length_take]
    omega
  have split : earlier.zipIdx 1 =
      (earlier.take (earlier.length - around)).zipIdx 1 ++
        (earlier.drop (earlier.length - around)).zipIdx (earlier.length - around + 1) := by
    rw [← size, ← List.zipIdx_append, List.take_append_drop]
  rw [split, excerptOf_append, excerptOf_eq_nil, excerptOf_eq_numberedLines, List.nil_append]
  · intro number above below
    rw [List.length_drop] at below
    dsimp only
    omega
  · intro number above below
    rw [size] at below
    dsimp only
    omega

theorem excerptOf_singleton (line : List Char) (row : Nat) :
    excerptOf ⟨row, column⟩ around [(line, row)] = [numberedLine row line, caretLine column] := by
  have near : (row : Int) ≤ row + around := by omega
  simp [excerptOf, near]

/-- Of the lines behind a position the nearest ones are shown. -/
theorem excerptOf_later (row : Nat) (later : List (List Char)) :
    excerptOf ⟨row, column⟩ around (later.zipIdx (row + 1)) =
      numberedLines (row + 1) (later.take around) := by
  have split : later.zipIdx (row + 1) =
      (later.take around).zipIdx (row + 1) ++
        (later.drop around).zipIdx (row + 1 + (later.take around).length) := by
    rw [← List.zipIdx_append, List.take_append_drop]
  rw [split, excerptOf_append, excerptOf_eq_numberedLines, excerptOf_eq_nil, List.append_nil]
  · intro number above below
    rw [List.length_take] at above
    rw [List.length_drop, List.length_take] at below
    dsimp only
    omega
  · intro number above below
    rw [List.length_take] at below
    dsimp only
    omega

/-- The excerpt around a line shows the lines nearest to it, with the caret line below it. -/
theorem excerptLines_eq
    {text : List Char}
    {earlier later : List (List Char)}
    {line : List Char}
    (lines : Text.linesOf text = earlier ++ line :: later)
    (column : Int)
    (around : Nat) :
    excerptLines text ⟨(earlier.length + 1 : Nat), column⟩ around =
      numberedLines (earlier.length - around + 1) (earlier.drop (earlier.length - around)) ++
        numberedLine (earlier.length + 1) line :: caretLine column ::
          numberedLines (earlier.length + 2) (later.take around) := by
  have numbered : (Text.linesOf text).zipIdx 1 =
      earlier.zipIdx 1 ++
        ([(line, earlier.length + 1)] ++ later.zipIdx (earlier.length + 2)) := by
    rw [lines, List.zipIdx_append, List.zipIdx_cons, Nat.add_comm 1]
    rfl
  rw [excerptLines_eq_excerptOf, numbered, excerptOf_append, excerptOf_append, excerptOf_earlier,
    excerptOf_singleton, excerptOf_later]
  rfl

/-- The context of an error behind the front of a text. -/
theorem context_locate
    {front rest : List Char}
    {earlier later : List (List Char)}
    {start line : List Char}
    (before : Text.linesOf front = earlier ++ [start])
    (lines : Text.linesOf (front ++ rest) = earlier ++ line :: later)
    (flaw : Flaw) :
    (SyntaxError.locate flaw (front ++ rest) front.length).context =
      "\n".intercalate
        (numberedLines (earlier.length - 2 + 1) (earlier.drop (earlier.length - 2)) ++
          numberedLine (earlier.length + 1) line :: caretLine (start.length + 1 : Nat) ::
            numberedLines (earlier.length + 2) (later.take 2)) := by
  have excerpted := excerptLines_eq lines (start.length + 1 : Nat) 2
  rw [← Position.ofOffset_eq before rest] at excerpted
  rw [← excerpted]
  rfl

/-! ## The caret -/

/-- The context of an error at a character of a text. Whole lines and the start of a line stand
before the character, the rest of that line and whole lines behind it. -/
structure Points
    (text : List Char)
    (offset : Nat)
    (c : Char)
    (context : String)
    (earlier : List (List Char))
    (start more : List Char)
    (later : List (List Char)) : Prop where
  /-- The lines up to the character. -/
  before : Text.linesOf (text.take offset) = earlier ++ [start]
  /-- The lines of the text. -/
  lines : Text.linesOf text = earlier ++ (start ++ c :: more) :: later
  /-- The context shows the line of the character with the caret line directly below it, and up to
  two lines on either side. -/
  context_eq : context = "\n".intercalate
    (numberedLines (earlier.length - 2 + 1) (earlier.drop (earlier.length - 2)) ++
      numberedLine (earlier.length + 1) (start ++ c :: more) :: caretLine (start.length + 1 : Nat) ::
        numberedLines (earlier.length + 2) (later.take 2))
  /-- On the line that is shown the character stands behind the margin and the start. -/
  shown : (numberedLine (earlier.length + 1) (start ++ c :: more)).toList =
    (margin (earlier.length + 1)).toList ++ start ++ c :: more
  /-- The caret stands behind six blanks and as many as the start is long. -/
  caret : (caretLine (start.length + 1 : Nat)).toList.idxOf '^' = 6 + start.length
  /-- The caret stands under the character if and only if the line has a number of up to four
  digits. -/
  under_iff : (caretLine (start.length + 1 : Nat)).toList.idxOf '^' =
    ((margin (earlier.length + 1)).toList ++ start).length ↔ earlier.length + 1 ≤ 9999

/-- The context of an error shows the caret directly below the line of the offending character, and
under that character up to line 9999. -/
theorem locate_points_at_character
    {text : List Char}
    {offset : Nat}
    {c : Char}
    (found : text[offset]? = some c)
    (inLine : c ≠ '\n')
    (flaw : Flaw) :
    ∃ earlier start more later,
      Points text offset c (SyntaxError.locate flaw text offset).context earlier start more later := by
  obtain ⟨inside, rfl⟩ := List.getElem?_eq_some_iff.mp found
  have split : text.take offset ++ text[offset] :: text.drop (offset + 1) = text := by
    rw [List.getElem_cons_drop, List.take_append_drop]
  have size : (text.take offset).length = offset := by
    rw [List.length_take]
    omega
  obtain ⟨earlier, start, more, later, before, lines⟩ :=
    Text.exists_linesOf_insert (text.take offset) (text.drop (offset + 1)) inLine
  have context := context_locate before lines flaw
  rw [split, size] at context
  rw [split] at lines
  refine ⟨earlier, start, more, later, before, lines, context, ?_, idxOf_caretLine _, ?_⟩
  · rw [toList_numberedLine, List.append_assoc]
  · rw [idxOf_caretLine, List.length_append, String.length_toList, Nat.add_right_cancel_iff,
      eq_comm, length_margin_eq_iff]

/-- The closing brace is shown on the second line, with one line before it and two behind it. -/
theorem locate_points_at_character_second_line :
    (SyntaxError.locate .missingOpenBrace "1\n  \x7d\n\n4\n5".toList 4).context =
        "   1: 1\n   2:   \x7d\n        ^ here\n   3: \n   4: 4" ∧
      ∃ earlier start more later,
        Points "1\n  \x7d\n\n4\n5".toList 4 '\x7d'
          (SyntaxError.locate .missingOpenBrace "1\n  \x7d\n\n4\n5".toList 4).context
          earlier start more later :=
  ⟨by decide +kernel, locate_points_at_character rfl (by decide) .missingOpenBrace⟩

theorem linesOf_replicate_newline (count : Nat) (rest : List Char) :
    Text.linesOf (List.replicate count '\n' ++ rest) =
      List.replicate count [] ++ Text.linesOf rest := by
  induction count with
  | zero => rfl
  | succ count inductionHypothesis =>
      rw [List.replicate_succ, List.cons_append, Text.linesOf_newline, inductionHypothesis]
      rfl

theorem context_locate_replicate_newline (count : Nat) (flaw : Flaw) :
    (SyntaxError.locate flaw (List.replicate (count + 2) '\n' ++ ['x']) (count + 2 : Nat)).context =
      "\n".intercalate [numberedLine (count + 1) [], numberedLine (count + 2) [],
        numberedLine (count + 3) ['x'], caretLine 1] := by
  have before : Text.linesOf (List.replicate (count + 2) '\n') =
      List.replicate (count + 2) [] ++ [[]] := by
    have lines := linesOf_replicate_newline (count + 2) []
    rwa [List.append_nil] at lines
  have context := context_locate before (linesOf_replicate_newline (count + 2) ['x']) flaw
  rw [List.length_replicate, List.length_replicate, List.drop_replicate, Nat.add_sub_cancel,
    Nat.add_sub_cancel_left] at context
  exact context

/-- Behind 9999 empty lines the caret stands to the left of the character. -/
theorem caret_misses_character :
    (List.replicate 9999 '\n' ++ ['x'])[9999]? = some 'x' ∧
      (SyntaxError.locate .malformed (List.replicate 9999 '\n' ++ ['x']) 9999).context =
        "\n".intercalate ["9998: ", "9999: ", "10000: x", "      ^ here"] ∧
      "10000: x".toList.idxOf 'x' = 7 ∧ "      ^ here".toList.idxOf '^' = 6 := by
  refine ⟨?_, ?_, by decide, by decide⟩
  · have front : (List.replicate 9999 '\n').length = 9999 := List.length_replicate
    rw [List.getElem?_append_right (Nat.le_of_eq front), front]
    rfl
  · exact (context_locate_replicate_newline 9997 .malformed).trans (by decide +kernel)

end Source
end Concatenative
