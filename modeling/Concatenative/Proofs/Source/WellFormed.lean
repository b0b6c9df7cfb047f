import Concatenative.Proofs.Source.Scanning
import Concatenative.Proofs.Text.Digits
import Concatenative.Source.Program
import Concatenative.Word.Display

/-!
# Well-formed words

The words that a program can consist of, said without the reader of programs, and what the reader
of bare words makes of their written forms.
-/

namespace Concatenative
namespace Source

/-! ## Numerals -/

/-- One decimal digit or more. -/
def DecimalDigits (digits : List Char) : Prop :=
  digits ≠ [] ∧ ∀ c ∈ digits, Text.isDecimalDigit c = true

/-- A text is a decimal numeral with the given sign and digits. -/
inductive Numeral : List Char → Bool → List Char → Prop where
  /-- Digits alone. -/
  | unsigned {digits : List Char} (decimal : DecimalDigits digits) : Numeral digits false digits
  /-- Digits behind a plus sign. -/
  | plus {digits : List Char} (decimal : DecimalDigits digits) :
      Numeral ('+' :: digits) false digits
  /-- Digits behind a minus sign. -/
  | minus {digits : List Char} (decimal : DecimalDigits digits) :
      Numeral ('-' :: digits) true digits

theorem DecimalDigits.first_ne
    {c sign : Char}
    {digits : List Char}
    (decimal : DecimalDigits (c :: digits))
    (noDigit : Text.isDecimalDigit sign = false) :
    c ≠ sign := by
  rintro rfl
  have digit := decimal.2 c List.mem_cons_self
  rw [noDigit] at digit
  cases digit

theorem decimalDigits_iff (digits : List Char) :
    (digits.isEmpty || !digits.all Text.isDecimalDigit) = false ↔ DecimalDigits digits := by
  simp [DecimalDigits]

theorem numeral_of_decimal?
    {text digits : List Char}
    {negative : Bool}
    (found : decimal? text = some (negative, digits)) :
    Numeral text negative digits := by
  unfold decimal? at found
  split at found
  next sign body parts =>
    rw [Option.ite_none_left_eq_some, Bool.not_eq_true, decimalDigits_iff] at found
    obtain ⟨decimal, equal⟩ := found
    cases equal
    split at parts <;> cases parts
    · exact .minus decimal
    · exact .plus decimal
    · exact .unsigned decimal

theorem Numeral.decimal?_eq
    {text digits : List Char}
    {negative : Bool}
    (numeral : Numeral text negative digits) :
    decimal? text = some (negative, digits) := by
  cases numeral with
  | plus decimal => simp [decimal?, (decimalDigits_iff digits).mpr decimal]
  | minus decimal => simp [decimal?, (decimalDigits_iff digits).mpr decimal]
  | unsigned decimal =>
      unfold decimal?
      split
      next sign body parts =>
        split at parts
        · exact absurd rfl (decimal.first_ne (by decide))
        · exact absurd rfl (decimal.first_ne (by decide))
        · cases parts
          simp [(decimalDigits_iff text).mpr decimal]

/-! ## Words -/

/-- The integer is one of thirty-two bits. -/
def InRange (number : Int) : Prop :=
  minInt ≤ number ∧ number ≤ maxInt

instance (number : Int) : Decidable (InRange number) :=
  inferInstanceAs (Decidable (_ ∧ _))

/-- No integer is read from the text, and reading it is not refused: if it is a numeral at all, it
has few enough digits and denotes an integer out of range. -/
def NoInteger (text : List Char) : Prop :=
  ∀ negative digits, Numeral text negative digits →
    digits.length ≤ maxDigits ∧ ¬ InRange (signedNumber negative digits)

end Source

/-- A word that a program can consist of. -/
inductive Word.WellFormed : Word → Prop where
  /-- A name that is a bare word and no integer. -/
  | atom {name : String}
      (spelled : Source.Plain name.toList)
      (noInteger : Source.NoInteger name.toList) :
      WellFormed (.atom name)
  /-- An integer of thirty-two bits. -/
  | int {value : Int} (inRange : Source.InRange value) : WellFormed (.int value)
  /-- A natural number of thirty-two bits. -/
  | hex {value : Nat} (inRange : value ≤ Source.maxHex) : WellFormed (.hex value)
  /-- A text without quotes and tabs. -/
  | str {text : String}
      (quoteless : '"' ∉ text.toList)
      (tabless : '\t' ∉ text.toList) :
      WellFormed (.str text)
  /-- A list of well-formed words. -/
  | list {items : List Word}
      (each : ∀ item ∈ items, WellFormed item) :
      WellFormed (.list items)

namespace Source

/-! ## Reading gives well-formed words -/

theorem Plain.first_ne_sharp
    {first : Char}
    {rest : List Char}
    (spelled : Plain (first :: rest)) :
    first ≠ '#' := by
  generalize whole : first :: rest = chars at spelled
  cases spelled with
  | equals count =>
      cases whole
      decide
  | word begins goesOn =>
      cases whole
      exact begins.2.2

theorem readWord_of_plain
    {chars : List Char}
    (spelled : Plain chars) :
    readWord chars = readPlain chars := by
  unfold readWord
  split
  · exact absurd rfl spelled.first_ne_sharp
  · rfl

theorem readPlain_of_noInteger
    {chars : List Char}
    (noInteger : NoInteger chars) :
    readPlain chars = .ok (.atom (String.ofList chars)) := by
  unfold readPlain readInteger
  cases found : decimal? chars with
  | none => rfl
  | some parts =>
      obtain ⟨few, outside⟩ := noInteger _ _ (numeral_of_decimal? found)
      simp only [Nat.not_lt.mpr few]
      exact if_neg outside

theorem readPlain_of_numeral
    {chars digits : List Char}
    {negative : Bool}
    (numeral : Numeral chars negative digits)
    (few : digits.length ≤ maxDigits)
    (inside : InRange (signedNumber negative digits)) :
    readPlain chars = .ok (.int (signedNumber negative digits)) := by
  unfold readPlain readInteger
  rw [numeral.decimal?_eq]
  simp only [Nat.not_lt.mpr few]
  exact if_pos inside

theorem readPlain_of_oversized
    {chars digits : List Char}
    {negative : Bool}
    (numeral : Numeral chars negative digits)
    (many : maxDigits < digits.length) :
    readPlain chars = .error (.oversized digits.length) := by
  unfold readPlain readInteger
  rw [numeral.decimal?_eq]
  simp only [many, if_true]

/-- What a word without number sign can be read as. -/
inductive PlainReading (chars : List Char) : Prop where
  /-- An atom, because it is no integer in range. -/
  | atom
      (noInteger : NoInteger chars)
      (read : readPlain chars = .ok (.atom (String.ofList chars)))
  /-- An integer in range. -/
  | int {negative : Bool} {digits : List Char}
      (inside : InRange (signedNumber negative digits))
      (read : readPlain chars = .ok (.int (signedNumber negative digits)))
  /-- Nothing, because it is a decimal numeral with too many digits. -/
  | oversized {negative : Bool} {digits : List Char}
      (numeral : Numeral chars negative digits)
      (many : maxDigits < digits.length)
      (read : readPlain chars = .error (.oversized digits.length))

theorem plainReading (chars : List Char) : PlainReading chars := by
  by_cases noInteger : NoInteger chars
  · exact .atom noInteger (readPlain_of_noInteger noInteger)
  · simp only [NoInteger, Classical.not_forall] at noInteger
    obtain ⟨negative, digits, numeral, readable⟩ := noInteger
    by_cases few : digits.length ≤ maxDigits
    · have inside : InRange (signedNumber negative digits) :=
        Classical.byContradiction fun outside => readable ⟨few, outside⟩
      exact .int inside (readPlain_of_numeral numeral few inside)
    · have many := Nat.lt_of_not_le few
      exact .oversized numeral many (readPlain_of_oversized numeral many)

theorem wellFormed_of_readPlain
    {chars : List Char}
    (spelled : Plain chars)
    {word : Word}
    (read : readPlain chars = .ok word) :
    word.WellFormed := by
  cases plainReading chars with
  | atom noInteger asAtom =>
      rw [asAtom] at read
      cases read
      rw [← String.toList_ofList (l := chars)] at spelled noInteger
      exact .atom spelled noInteger
  | int inside asInt =>
      rw [asInt] at read
      cases read
      exact .int inside
  | oversized numeral many refused =>
      rw [refused] at read
      cases read

theorem wellFormed_of_readHex
    {digits : List Char}
    {word : Word}
    (read : readHex digits = .ok word) :
    word.WellFormed := by
  unfold readHex at read
  split at read
  · cases read
  · split at read
    · cases read
    next large =>
      cases read
      exact .hex (Nat.le_of_not_lt large)

/-- A bare word is read as a well-formed word if it is read at all. -/
theorem wellFormed_of_readWord
    {chars : List Char}
    (bare : Bare chars)
    {word : Word}
    (read : readWord chars = .ok word) :
    word.WellFormed := by
  cases bare with
  | plain spelled =>
      rw [readWord_of_plain spelled] at read
      exact wellFormed_of_readPlain spelled read
  | sharp noComment goesOn => exact wellFormed_of_readHex read

/-! ## Well-formed words are read back -/

/-- A word is written as a bare word from which it is read. -/
def ReadsBack (word : Word) : Prop :=
  Bare word.display.toList ∧ readWord word.display.toList = .ok word

theorem readsBack_atom
    {name : String}
    (spelled : Plain name.toList)
    (noInteger : NoInteger name.toList) :
    ReadsBack (.atom name) := by
  refine ⟨.plain spelled, ?_⟩
  rw [Word.display, readWord_of_plain spelled, readPlain_of_noInteger noInteger,
    String.ofList_toList]

instance : DecidablePred StartsWord := fun c =>
  inferInstanceAs (Decidable (endsWord c = false ∧ c ≠ '"' ∧ c ≠ '#'))

theorem startsWord_of_mem_toDigits
    {number : Nat} :
    ∀ c ∈ Nat.toDigits 10 number, StartsWord c :=
  Text.forall_mem_toDigits (by decide) (by decide) number

theorem opensComment_of_mem_toDigits
    {number : Nat} :
    ∀ c ∈ Nat.toDigits 16 number, opensComment c = false :=
  Text.forall_mem_toDigits (by decide) (by decide) number

theorem plain_of_forall_startsWord
    {chars : List Char}
    (present : chars ≠ [])
    (each : ∀ c ∈ chars, StartsWord c) :
    Plain chars := by
  obtain ⟨first, rest, rfl⟩ := List.exists_cons_of_ne_nil present
  rw [List.forall_mem_cons] at each
  exact .word each.1 fun c later => (each.2 c later).1

theorem decimalDigits_toDigits (number : Nat) : DecimalDigits (Nat.toDigits 10 number) :=
  ⟨Nat.toDigits_ne_nil, Text.isDecimalDigit_of_mem_toDigits⟩

theorem length_toDigits_le_maxDigits
    {value : Int}
    (inRange : InRange value) :
    (Nat.toDigits 10 value.natAbs).length ≤ maxDigits := by
  obtain ⟨atLeast, atMost⟩ := inRange
  unfold minInt at atLeast
  unfold maxInt at atMost
  have short : (Nat.toDigits 10 value.natAbs).length ≤ 10 := by
    rw [Nat.length_toDigits_le_iff (by decide) (by decide)]
    omega
  exact Nat.le_trans short (by decide)

theorem signedNumber_toDigits (value : Int) :
    signedNumber (value < 0) (Nat.toDigits 10 value.natAbs) = value := by
  rw [signedNumber, Text.numberOf_toDigits (by decide) (by decide)]
  by_cases negative : value < 0
  · simp only [negative, decide_true, if_true]
    omega
  · simp only [negative, decide_false, Bool.false_eq_true, if_false]
    omega

theorem toList_repr_of_nonneg {value : Int} (nonnegative : ¬ value < 0) :
    value.repr.toList = Nat.toDigits 10 value.natAbs := by
  have same : value.toNat = value.natAbs := by omega
  rw [Int.repr_eq_if, if_pos (by omega), Nat.toList_repr, same]

theorem toList_repr_of_neg {value : Int} (negative : value < 0) :
    value.repr.toList = '-' :: Nat.toDigits 10 value.natAbs := by
  have same : (-value).toNat = value.natAbs := by omega
  rw [Int.repr_eq_if, if_neg (by omega), String.toList_append, Nat.toList_repr, same]
  rfl

theorem numeral_repr (value : Int) :
    Numeral value.repr.toList (value < 0) (Nat.toDigits 10 value.natAbs) := by
  by_cases negative : value < 0
  · rw [toList_repr_of_neg negative, decide_eq_true negative]
    exact .minus (decimalDigits_toDigits _)
  · rw [toList_repr_of_nonneg negative, decide_eq_false negative]
    exact .unsigned (decimalDigits_toDigits _)

theorem plain_repr (value : Int) : Plain value.repr.toList := by
  by_cases negative : value < 0
  · rw [toList_repr_of_neg negative]
    exact .word (by decide) fun c present => (startsWord_of_mem_toDigits c present).1
  · rw [toList_repr_of_nonneg negative]
    exact plain_of_forall_startsWord Nat.toDigits_ne_nil startsWord_of_mem_toDigits

theorem readsBack_int
    {value : Int}
    (inRange : InRange value) :
    ReadsBack (.int value) := by
  have few := length_toDigits_le_maxDigits inRange
  have same := signedNumber_toDigits value
  refine ⟨.plain (plain_repr value), ?_⟩
  rw [Word.display, readWord_of_plain (plain_repr value),
    readPlain_of_numeral (numeral_repr value) few (same.symm ▸ inRange), same]

theorem readHex_toDigits
    {value : Nat}
    (inRange : value ≤ maxHex) :
    readHex (Nat.toDigits 16 value) = .ok (.hex value) := by
  have number : Text.numberOf 16 (Nat.toDigits 16 value) = value :=
    Text.numberOf_toDigits (by decide) (by decide) value
  have allHex : (Nat.toDigits 16 value).all Text.isHexDigit = true :=
    List.all_eq_true.mpr Text.isHexDigit_of_mem_toDigits
  have present : (Nat.toDigits 16 value).isEmpty = false :=
    List.isEmpty_eq_false_iff.mpr Nat.toDigits_ne_nil
  simp [readHex, number, allHex, present, Nat.not_lt.mpr inRange]

theorem bare_sharp_toDigits (value : Nat) : Bare ('#' :: Nat.toDigits 16 value) := by
  have each : ∀ c ∈ Nat.toDigits 16 value, opensComment c = false := opensComment_of_mem_toDigits
  cases digits : Nat.toDigits 16 value with
  | nil => exact absurd digits Nat.toDigits_ne_nil
  | cons first rest =>
      rw [digits, List.forall_mem_cons] at each
      exact .sharp each.1 fun c later => endsWord_of_opensComment (each.2 c later)

theorem toList_display_hex (value : Nat) :
    (Word.display (.hex value)).toList = '#' :: Nat.toDigits 16 value := by
  change ("#" ++ String.ofList (Nat.toDigits 16 value)).toList = _
  simp

theorem readsBack_hex
    {value : Nat}
    (inRange : value ≤ maxHex) :
    ReadsBack (.hex value) := by
  unfold ReadsBack
  rw [toList_display_hex]
  exact ⟨bare_sharp_toDigits value, readHex_toDigits inRange⟩

end Source
end Concatenative
