import Concatenative.Proofs.Source.Location
import Mathlib.Data.Set.Function

/-!
# Offsets

A text has as many positions as offsets: an offset in front of each character and one behind the
last, a position in front of each character of a line and one at its end. Going from the offset to
the position and back again is counting along the lines.
-/

namespace Concatenative

namespace Text

/-- The number of characters of some lines and of the newlines that end them. -/
def extent : List (List Char) → Nat
  | [] => 0
  | line :: later => line.length + 1 + extent later

theorem extent_nil : extent [] = 0 := rfl

theorem extent_cons (line : List Char) (later : List (List Char)) :
    extent (line :: later) = line.length + 1 + extent later := rfl

theorem extent_append (first second : List (List Char)) :
    extent (first ++ second) = extent first + extent second := by
  induction first with
  | nil => rw [List.nil_append, extent_nil, Nat.zero_add]
  | cons line first inductionHypothesis =>
      rw [List.cons_append, extent_cons, extent_cons, inductionHypothesis]
      omega

/-- All lines of a text but the last are ended by a newline. -/
theorem extent_linesOf (text : List Char) : extent (linesOf text) = text.length + 1 := by
  induction text with
  | nil => rfl
  | cons c rest inductionHypothesis =>
      by_cases newline : c = '\n'
      · subst newline
        rw [linesOf_newline, extent_cons, inductionHypothesis, List.length_cons, List.length_nil]
        omega
      · obtain ⟨line, later, lines⟩ := List.exists_cons_of_ne_nil (linesOf_ne_nil rest)
        rw [lines, extent_cons] at inductionHypothesis
        rw [linesOf_inLine newline lines, extent_cons, List.length_cons, List.length_cons]
        omega

end Text

namespace Source

/-- The offsets of a text: those of its characters, and the one behind the last. -/
def offsetsOf (text : List Char) : Set Int :=
  {offset | 0 ≤ offset ∧ offset ≤ text.length}

/-- The position is in front of a character of a line of the text, or at the end of a line. -/
def Position.Within (text : List Char) (position : Position) : Prop :=
  ∃ row column chars, position = ⟨(row + 1 : Nat), (column + 1 : Nat)⟩ ∧
    (Text.linesOf text)[row]? = some chars ∧ column ≤ chars.length

/-- The offset of a position, counted along the lines before it and then along its own. -/
def Position.offsetIn (text : List Char) (position : Position) : Int :=
  Text.extent ((Text.linesOf text).take (position.line - 1).toNat) + (position.column - 1)

variable {text : List Char}

/-- The lines of a beginning of a text say which position is behind it. -/
theorem Position.within_ofOffset
    (front rest : List Char) :
    (ofOffset (front ++ rest) front.length).Within (front ++ rest) ∧
      (ofOffset (front ++ rest) front.length).offsetIn (front ++ rest) = front.length := by
  obtain ⟨earlier, start, behind, later, before, _, joined⟩ :=
    Text.exists_linesOf_append front rest
  have extent := Text.extent_linesOf front
  rw [before, Text.extent_append, Text.extent_cons, Text.extent_nil] at extent
  rw [ofOffset_eq before]
  constructor
  · refine ⟨earlier.length, start.length, start ++ behind, rfl, ?_, ?_⟩
    · simp [joined]
    · simp
  · have rows : ((earlier.length + 1 : Nat) - 1 : Int).toNat = earlier.length := by omega
    simp only [offsetIn, joined, rows, List.take_left]
    omega

/-- Every position within a text is the position of an offset. -/
theorem Position.Within.exists_offset
    {position : Position}
    (within : position.Within text) :
    ∃ offset : Nat, offset ≤ text.length ∧ ofOffset text offset = position := by
  obtain ⟨row, column, chars, rfl, found, inside⟩ := within
  obtain ⟨bound, rfl⟩ := List.getElem?_eq_some_iff.mp found
  have lines : Text.linesOf text =
      (Text.linesOf text).take row ++ (Text.linesOf text)[row] ::
        (Text.linesOf text).drop (row + 1) := by
    rw [List.getElem_cons_drop, List.take_append_drop]
  obtain ⟨front, rest, rfl, cut⟩ := Text.exists_front_of_linesOf lines column
  refine ⟨front.length, by simp, ?_⟩
  rw [ofOffset_eq cut, List.length_take_of_le (Nat.le_of_lt bound), List.length_take_of_le inside]

/-- No offset in front of the text or behind it has a position within it. -/
theorem Position.mem_of_within
    {offset : Int}
    (within : (ofOffset text offset).Within text) :
    offset ∈ offsetsOf text := by
  cases offset with
  | ofNat offset =>
      obtain ⟨other, bound, same⟩ := within.exists_offset
      obtain rfl := ofOffset_inj.mp same
      exact ⟨Int.natCast_nonneg other, Int.ofNat_le.mpr bound⟩
  | negSucc offset =>
      obtain ⟨row, column, chars, position, _⟩ := within
      obtain ⟨_, columns⟩ := Position.mk.inj position
      omega

/-- Finding the position of an offset is a bijection between the offsets of a text and its
positions. Counting along the lines is its inverse, and no other offset has one of the positions. -/
theorem Position.ofOffset_bijOn (text : List Char) :
    Set.BijOn (ofOffset text) (offsetsOf text) {position | position.Within text} ∧
      (∀ offset ∈ offsetsOf text, (ofOffset text offset).offsetIn text = offset) ∧
      ∀ offset, (ofOffset text offset).Within text → offset ∈ offsetsOf text := by
  have counted : ∀ offset ∈ offsetsOf text,
      (ofOffset text offset).Within text ∧ (ofOffset text offset).offsetIn text = offset := by
    rintro offset ⟨nonneg, bound⟩
    obtain ⟨count, rfl⟩ := Int.eq_ofNat_of_zero_le nonneg
    have split := within_ofOffset (text.take count) (text.drop count)
    rwa [List.take_append_drop, List.length_take_of_le (Int.ofNat_le.mp bound)] at split
  refine ⟨⟨?_, ?_, ?_⟩, fun offset inside => (counted offset inside).2, fun _ => mem_of_within⟩
  · exact fun offset inside => (counted offset inside).1
  · intro first firstInside second secondInside same
    rw [← (counted first firstInside).2, ← (counted second secondInside).2, same]
  · intro position within
    obtain ⟨offset, bound, found⟩ := within.exists_offset
    exact ⟨offset, ⟨Int.natCast_nonneg offset, Int.ofNat_le.mpr bound⟩, found⟩

/-- The only position on an empty line is that of the newline which ends it. -/
theorem Position.ofOffset_bijOn_of_emptyLine :
    let text := "ab\n\nc".toList
    3 ∈ offsetsOf text ∧
      ofOffset text 3 = ⟨2, 1⟩ ∧
      offsetIn text ⟨2, 1⟩ = 3 ∧
      Within text ⟨2, 1⟩ ∧
      ¬ (ofOffset text 6).Within text := by
  intro text
  obtain ⟨bijective, counted, bounded⟩ := ofOffset_bijOn text
  have inside : 3 ∈ offsetsOf text := ⟨by decide, by decide⟩
  refine ⟨inside, rfl, counted 3 inside, bijective.mapsTo inside, fun within => ?_⟩
  exact absurd (bounded 6 within).2 (by decide)

end Source
end Concatenative
