import Concatenative.Proofs.Text.Line
import Concatenative.Source.Position

/-!
# Locations

The position of an offset is where the character at the offset stands: on the line that as many
newlines are before, behind as many characters as there are between the line's beginning and the
offset.
-/

namespace Concatenative
namespace Source

theorem lastLineStart_eq
    {text : List Char}
    {earlier : List (List Char)}
    {line : List Char}
    (lines : Text.linesOf text = earlier ++ [line]) :
    lastLineStart text = text.length - line.length := by
  rw [lastLineStart, Text.reverse_takeWhile_eq lines, List.length_reverse]

/-- Characters that no newline is among leave the beginning of the last line where it is. -/
theorem lastLineStart_append
    (front : List Char)
    {more : List Char}
    (inLine : '\n' ∉ more) :
    lastLineStart (front ++ more) = lastLineStart front := by
  have goesOn : ∀ c ∈ more.reverse, (decide (c ≠ '\n')) = true := by
    intro c present
    exact decide_eq_true fun newline => inLine (newline ▸ List.mem_reverse.mp present)
  rw [lastLineStart, lastLineStart, List.reverse_append, List.takeWhile_append_of_pos goesOn,
    List.length_append, List.length_append, List.length_reverse]
  omega

theorem Position.eq_zero_of_ofOffset_add
    {text : List Char}
    {offset width : Nat}
    (same : Position.ofOffset text offset = Position.ofOffset text (offset + width : Nat)) :
    width = 0 := by
  have later : text.take (offset + width) = text.take offset ++ (text.drop offset).take width :=
    List.take_add
  obtain ⟨rows, columns⟩ := Position.mk.inj same
  simp only [charsBefore, later, List.count_append] at rows columns
  -- On one line the offsets are as far apart as the columns.
  have inLine : '\n' ∉ (text.drop offset).take width := by
    rw [← List.count_eq_zero]
    omega
  rw [lastLineStart_append _ inLine] at columns
  omega

/-- No two offsets that are not negative have one position. -/
theorem Position.ofOffset_inj
    {text : List Char}
    {first second : Nat} :
    Position.ofOffset text first = Position.ofOffset text second ↔ first = second := by
  refine ⟨fun same => ?_, fun equal => by rw [equal]⟩
  rcases Nat.le_total first second with before | before
  · obtain ⟨width, rfl⟩ := Nat.exists_eq_add_of_le before
    rw [Position.eq_zero_of_ofOffset_add same, Nat.add_zero]
  · obtain ⟨width, rfl⟩ := Nat.exists_eq_add_of_le before
    rw [Position.eq_zero_of_ofOffset_add same.symm, Nat.add_zero]

/-- The character stands in the text at the position. -/
def Position.Denotes (text : List Char) (position : Position) (c : Char) : Prop :=
  ∃ row column chars, position = ⟨(row + 1 : Nat), (column + 1 : Nat)⟩ ∧
    (Text.linesOf text)[row]? = some chars ∧ chars[column]? = some c

/-- The position behind the beginning of a text is counted by the lines of that beginning. -/
theorem Position.ofOffset_eq
    {front : List Char}
    {earlier : List (List Char)}
    {start : List Char}
    (before : Text.linesOf front = earlier ++ [start])
    (rest : List Char) :
    Position.ofOffset (front ++ rest) front.length =
      ⟨(earlier.length + 1 : Nat), (start.length + 1 : Nat)⟩ := by
  have rows : earlier.length = front.count '\n' := by
    have length := Text.length_linesOf front
    rw [before, List.length_append, List.length_singleton] at length
    omega
  have inFront : start.length ≤ front.length := by
    have shorter := (front.reverse.takeWhile_sublist fun c => c ≠ '\n').length_le
    rwa [Text.reverse_takeWhile_eq before, List.length_reverse, List.length_reverse] at shorter
  have front_eq : charsBefore (front ++ rest) front.length = front := by
    simp [charsBefore]
  rw [Position.ofOffset, front_eq, lastLineStart_eq before, rows]
  simp only [Position.mk.injEq]
  omega

/-- Every character but a newline stands at the position of its offset. -/
theorem Position.denotes_ofOffset
    (front rest : List Char)
    {c : Char}
    (inLine : c ≠ '\n') :
    (Position.ofOffset (front ++ c :: rest) front.length).Denotes (front ++ c :: rest) c := by
  obtain ⟨earlier, start, more, later, before, joined⟩ :=
    Text.exists_linesOf_insert front rest inLine
  refine ⟨earlier.length, start.length, start ++ c :: more, ofOffset_eq before _, ?_, ?_⟩
  · simp [joined]
  · simp

end Source
end Concatenative
