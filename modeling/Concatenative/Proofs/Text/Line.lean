import Concatenative.Text.Line
import Mathlib.Data.List.Induction

/-!
# Lines

How the lines of a text are put together from the lines of its parts, and how a text is cut back
into lines that were terminated by line ends of either kind.
-/

namespace Concatenative
namespace Text

/-! ## Lines of joined texts -/

theorem linesOf_newline (rest : List Char) : linesOf ('\n' :: rest) = [] :: linesOf rest := rfl

theorem linesOf_inLine
    {c : Char}
    (inLine : c ≠ '\n')
    {line : List Char}
    {rest : List Char}
    {later : List (List Char)}
    (lines : linesOf rest = line :: later) :
    linesOf (c :: rest) = (c :: line) :: later := by
  simp only [linesOf_cons, addToLines, if_neg inLine, lines]

theorem length_linesOf (text : List Char) : (linesOf text).length = text.count '\n' + 1 := by
  induction text with
  | nil => rfl
  | cons c rest inductionHypothesis =>
      obtain ⟨line, later, lines⟩ := List.exists_cons_of_ne_nil (linesOf_ne_nil rest)
      by_cases newline : c = '\n'
      · subst newline
        rw [linesOf_newline, List.length_cons, inductionHypothesis, List.count_cons_self]
      · rw [linesOf_inLine newline lines, List.count_cons_of_ne newline, ← inductionHypothesis,
          lines]
        rfl

/-- Where two texts are joined, the last line of the one goes on as the first line of the other. -/
theorem exists_linesOf_append (front rest : List Char) :
    ∃ earlier line behind later, linesOf front = earlier ++ [line] ∧
      linesOf rest = behind :: later ∧
      linesOf (front ++ rest) = earlier ++ (line ++ behind) :: later := by
  induction front with
  | nil =>
      obtain ⟨behind, later, lines⟩ := List.exists_cons_of_ne_nil (linesOf_ne_nil rest)
      exact ⟨[], [], behind, later, rfl, lines, lines⟩
  | cons c front inductionHypothesis =>
      obtain ⟨earlier, line, behind, later, before, after, joined⟩ := inductionHypothesis
      by_cases newline : c = '\n'
      · subst newline
        refine ⟨[] :: earlier, line, behind, later, ?_, after, ?_⟩
        · rw [linesOf_newline, before, List.cons_append]
        · rw [List.cons_append, linesOf_newline, joined, List.cons_append]
      · cases earlier with
        | nil =>
            exact ⟨[], c :: line, behind, later, linesOf_inLine newline before, after,
              linesOf_inLine newline joined⟩
        | cons first earlier =>
            exact ⟨(c :: first) :: earlier, line, behind, later, linesOf_inLine newline before,
              after, linesOf_inLine newline joined⟩

/-- Every character but a newline stands on a line, behind what is there of the text before it. -/
theorem exists_linesOf_insert
    (front rest : List Char)
    {c : Char}
    (inLine : c ≠ '\n') :
    ∃ earlier start more later, linesOf front = earlier ++ [start] ∧
      linesOf (front ++ c :: rest) = earlier ++ (start ++ c :: more) :: later := by
  obtain ⟨earlier, start, behind, later, before, after, joined⟩ :=
    exists_linesOf_append front (c :: rest)
  obtain ⟨more, others, lines⟩ := List.exists_cons_of_ne_nil (linesOf_ne_nil rest)
  rw [linesOf_inLine inLine lines] at after
  obtain ⟨rfl, rfl⟩ := List.cons.inj after
  exact ⟨earlier, start, more, others, before, joined⟩

/-- Backwards from the end of a text up to a newline one reads its last line. -/
theorem reverse_takeWhile_eq
    {text : List Char}
    {earlier : List (List Char)}
    {line : List Char}
    (lines : linesOf text = earlier ++ [line]) :
    (text.reverse.takeWhile fun c => c ≠ '\n') = line.reverse := by
  induction text using List.reverseRecOn generalizing earlier line with
  | nil =>
      have split : [] ++ [[]] = earlier ++ [line] := lines
      obtain ⟨_, last⟩ := List.append_inj' split rfl
      rw [← List.singleton_inj.mp last]
      rfl
  | append_singleton text c inductionHypothesis =>
      obtain ⟨before, front, behind, later, textLines, lastLines, joined⟩ :=
        exists_linesOf_append text [c]
      rw [lines] at joined
      rw [List.reverse_append, List.reverse_singleton, List.singleton_append]
      by_cases newline : c = '\n'
      · subst newline
        rw [linesOf_newline, linesOf_nil] at lastLines
        obtain ⟨rfl, rfl⟩ := List.cons.inj lastLines
        rw [List.append_cons before] at joined
        obtain ⟨_, last⟩ := List.append_inj' joined rfl
        rw [List.takeWhile_cons_of_neg (by simp), List.singleton_inj.mp last, List.reverse_nil]
      · rw [linesOf_inLine newline linesOf_nil] at lastLines
        obtain ⟨rfl, rfl⟩ := List.cons.inj lastLines
        obtain ⟨_, last⟩ := List.append_inj' joined rfl
        rw [List.takeWhile_cons_of_pos (by simpa using newline), inductionHypothesis textLines,
          List.singleton_inj.mp last, List.reverse_append, List.reverse_singleton,
          List.singleton_append]

/-- Characters that no newline is among are put in front of the first line. -/
theorem linesOf_append_of_inLine
    {line : List Char}
    (inLine : '\n' ∉ line)
    {first rest : List Char}
    {later : List (List Char)}
    (lines : linesOf rest = first :: later) :
    linesOf (line ++ rest) = (line ++ first) :: later := by
  induction line with
  | nil => exact lines
  | cons c line inductionHypothesis =>
      obtain ⟨other, behind⟩ := List.ne_and_not_mem_of_not_mem_cons inLine
      exact linesOf_inLine other.symm (inductionHypothesis behind)

theorem linesOf_append_newline
    {line : List Char}
    (inLine : '\n' ∉ line)
    (rest : List Char) :
    linesOf (line ++ '\n' :: rest) = line :: linesOf rest := by
  rw [linesOf_append_of_inLine inLine (linesOf_newline rest), List.append_nil]

theorem linesOf_of_inLine
    {line : List Char}
    (inLine : '\n' ∉ line) :
    linesOf line = [line] := by
  have alone := linesOf_append_of_inLine inLine linesOf_nil
  rwa [List.append_nil] at alone

/-- A text is its first line alone, or it has a newline behind that and then the other lines. -/
theorem first_line_of_linesOf
    {text line : List Char}
    {later : List (List Char)}
    (lines : linesOf text = line :: later) :
    '\n' ∉ line ∧
      (text = line ∧ later = [] ∨ ∃ rest, text = line ++ '\n' :: rest ∧ linesOf rest = later) := by
  induction text generalizing line with
  | nil =>
      obtain ⟨rfl, rfl⟩ := List.cons.inj lines
      exact ⟨List.not_mem_nil, .inl ⟨rfl, rfl⟩⟩
  | cons c text inductionHypothesis =>
      by_cases newline : c = '\n'
      · subst newline
        obtain ⟨rfl, rfl⟩ := List.cons.inj lines
        exact ⟨List.not_mem_nil, .inr ⟨text, rfl, rfl⟩⟩
      · obtain ⟨start, others, behind⟩ := List.exists_cons_of_ne_nil (linesOf_ne_nil text)
        rw [linesOf_inLine newline behind] at lines
        obtain ⟨rfl, rfl⟩ := List.cons.inj lines
        obtain ⟨inLine, whole⟩ := inductionHypothesis behind
        refine ⟨List.not_mem_cons_of_ne_of_not_mem (Ne.symm newline) inLine, ?_⟩
        obtain ⟨rfl, last⟩ | ⟨rest, rfl, others⟩ := whole
        · exact .inl ⟨rfl, last⟩
        · exact .inr ⟨rest, rfl, others⟩

/-- Every beginning of a line is the last line of a beginning of the text. -/
theorem exists_front_of_linesOf
    {text line : List Char}
    {earlier later : List (List Char)}
    (lines : linesOf text = earlier ++ line :: later)
    (column : Nat) :
    ∃ front rest, text = front ++ rest ∧ linesOf front = earlier ++ [line.take column] := by
  induction earlier generalizing text with
  | nil =>
      obtain ⟨inLine, whole⟩ := first_line_of_linesOf lines
      have cut : linesOf (line.take column) = [line.take column] :=
        linesOf_of_inLine fun newline => inLine (List.mem_of_mem_take newline)
      obtain ⟨rfl, _⟩ | ⟨rest, rfl, _⟩ := whole
      · exact ⟨_, text.drop column, (List.take_append_drop ..).symm, cut⟩
      · refine ⟨_, line.drop column ++ '\n' :: rest, ?_, cut⟩
        rw [← List.append_assoc, List.take_append_drop]
  | cons first earlier inductionHypothesis =>
      obtain ⟨inLine, ⟨_, empty⟩ | ⟨behind, rfl, others⟩⟩ := first_line_of_linesOf lines
      · simp at empty
      · obtain ⟨front, rest, rfl, cut⟩ := inductionHypothesis others
        refine ⟨first ++ '\n' :: front, rest, by simp, ?_⟩
        rw [linesOf_append_newline inLine, cut, List.cons_append]

/-! ## Terminated lines -/

/-- What ends a line. -/
inductive LineEnd where
  /-- A newline alone. -/
  | newline
  /-- A carriage return and a newline. -/
  | returnNewline
  deriving DecidableEq

/-- The characters of a line end. -/
def LineEnd.chars : LineEnd → List Char
  | .newline => ['\n']
  | .returnNewline => ['\r', '\n']

/-- A line and what ends it. A line with a carriage return at its end is not ended by a newline
alone, since the two would be one line end. -/
structure TerminatedLine where
  /-- The line without what ends it. -/
  line : List Char
  /-- What ends it. -/
  ending : LineEnd
  /-- The line is one line. -/
  inLine : '\n' ∉ line
  /-- The line does not end in a part of the line end. -/
  apart : ending = .newline → line.getLast? ≠ some '\r'

namespace TerminatedLine

/-- The characters of a line and its end. -/
def chars (terminated : TerminatedLine) : List Char :=
  terminated.line ++ terminated.ending.chars

/-- The characters of a line and of what stands before the newline that ends it. -/
def body (terminated : TerminatedLine) : List Char :=
  terminated.line ++ terminated.ending.chars.dropLast

variable (terminated : TerminatedLine)

theorem chars_eq : terminated.chars = terminated.body ++ ['\n'] := by
  cases ending : terminated.ending <;> simp [chars, body, LineEnd.chars, ending]

theorem newline_notMem_body : '\n' ∉ terminated.body := by
  cases ending : terminated.ending <;>
    simp [body, LineEnd.chars, ending, terminated.inLine]

theorem body_eq_nil_iff :
    terminated.body = [] ↔ terminated.line = [] ∧ terminated.ending = .newline := by
  cases ending : terminated.ending <;> simp [body, LineEnd.chars, ending]

theorem dropReturn_body : dropReturn terminated.body = terminated.line := by
  cases ending : terminated.ending with
  | newline => simp [dropReturn, body, LineEnd.chars, ending, terminated.apart ending]
  | returnNewline => simp [dropReturn, body, LineEnd.chars, ending]

end TerminatedLine

open TerminatedLine

/-- The text that is made of lines and their ends. -/
def terminatedText (lines : List TerminatedLine) : List Char :=
  lines.flatMap chars

theorem linesOf_terminatedText_append (lines : List TerminatedLine) (rest : List Char) :
    linesOf (terminatedText lines ++ rest) = lines.map body ++ linesOf rest := by
  induction lines with
  | nil => rfl
  | cons first later inductionHypothesis =>
      have cut := linesOf_append_newline first.newline_notMem_body (terminatedText later ++ rest)
      have joined : terminatedText (first :: later) ++ rest =
          first.body ++ '\n' :: (terminatedText later ++ rest) := by
        simp [terminatedText, chars_eq]
      rw [joined, cut, inductionHypothesis, List.map_cons, List.cons_append]

theorem map_dropReturn_body (lines : List TerminatedLine) :
    (lines.map body).map dropReturn = lines.map line := by
  rw [List.map_map]
  exact List.map_congr_left fun terminated _ => terminated.dropReturn_body

/-- The last of the lines of a text does not count if it has no characters. -/
theorem splitLines_of_linesOf
    {text : List Char}
    {lines : List (List Char)}
    {last : List Char}
    (cut : linesOf text = lines ++ [last]) :
    splitLines text = (lines ++ if last = [] then [] else [last]).map dropReturn := by
  unfold splitLines
  simp only [cut, List.getLast?_concat, Option.some.injEq]
  split
  · rw [List.dropLast_concat, List.append_nil]
  · rfl

/-- Lines that were terminated, each in either way, are got back from the text that is made of them.
Without its last newline the text gives the same lines, except that an empty last line is lost if a
newline alone ended it. -/
theorem splitLines_terminated :
    (∀ lines : List TerminatedLine, splitLines (terminatedText lines) = lines.map line) ∧
      ∀ (earlier : List TerminatedLine) (last : TerminatedLine),
        splitLines (terminatedText (earlier ++ [last])).dropLast =
          if last.line = [] ∧ last.ending = .newline then earlier.map line
          else (earlier ++ [last]).map line := by
  constructor
  · intro lines
    have cut := linesOf_terminatedText_append lines []
    rw [List.append_nil] at cut
    rw [splitLines_of_linesOf cut, if_pos rfl, List.append_nil, map_dropReturn_body]
  · intro earlier last
    have shortened : (terminatedText (earlier ++ [last])).dropLast =
        terminatedText earlier ++ last.body := by
      simp [terminatedText, chars_eq, ← List.append_assoc]
    have cut : linesOf (terminatedText earlier ++ last.body) = earlier.map body ++ [last.body] := by
      rw [linesOf_terminatedText_append, linesOf_of_inLine last.newline_notMem_body]
    rw [shortened, splitLines_of_linesOf cut]
    simp only [body_eq_nil_iff]
    split
    · rw [List.append_nil, map_dropReturn_body]
    · rw [← List.map_singleton, ← List.map_append, map_dropReturn_body]

/-- A carriage return of the line itself stays. An empty last line is lost with the newline that
ended it, and not if a carriage return before that newline is left. -/
theorem splitLines_terminated_mixed :
    splitLines "a\n\nb\r\r\n\n".toList = ["a".toList, [], "b\r".toList, []] ∧
      splitLines "a\n\nb\r\r\n".toList = ["a".toList, [], "b\r".toList] ∧
      splitLines "a\n\nb\r\r\n\r".toList = ["a".toList, [], "b\r".toList, []] := by
  let earlier : List TerminatedLine :=
    [⟨"a".toList, .newline, by decide, by decide⟩, ⟨[], .newline, by decide, by decide⟩,
      ⟨"b\r".toList, .returnNewline, by decide, by decide⟩]
  let bare : TerminatedLine := ⟨[], .newline, by decide, by decide⟩
  let returned : TerminatedLine := ⟨[], .returnNewline, by decide, by decide⟩
  obtain ⟨whole, shortened⟩ := splitLines_terminated
  exact ⟨whole (earlier ++ [bare]), shortened earlier bare, shortened earlier returned⟩

end Text
end Concatenative
