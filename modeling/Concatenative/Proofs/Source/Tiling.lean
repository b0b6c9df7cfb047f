import Concatenative.Proofs.Source.Grammar

/-!
# Tiling

Where the tokens of a text stand in it. A token is spelled at its offset and goes on as far as it
can, and what stands before, between and behind the tokens are blanks and comments, so that
scanning loses nothing else. The text is the one in which tabs have been expanded.
-/

namespace Concatenative
namespace Source

/-! ## What stands in a text -/

/-- The characters of a lexeme as they stand in a text, the quotes of a string with them. -/
def Lexeme.spelling : Lexeme → List Char
  | .newline => ['\n']
  | .semicolon => [';']
  | .opening => ['\x7b']
  | .closing => ['\x7d']
  | .quoted text => '"' :: (text.toList ++ ['"'])
  | .unclosed text => text.toList
  | .bare text => text.toList

/-- The offset behind a token. -/
def Token.stop (token : Token) : Nat :=
  token.offset + token.lexeme.spelling.length

/-- The characters are a comment, given those that follow them: a number sign before a character
that opens a comment or before the end, and everything else on the line. -/
inductive Comment : List Char → List Char → Prop where
  | intro {body after : List Char}
      (opened : ∀ c ∈ (body ++ after).head?, opensComment c = true)
      (inLine : '\n' ∉ body)
      (lineEnds : ∀ c ∈ after.head?, c = '\n') :
      Comment ('#' :: body) after

/-- The characters are blanks and comments, none of them a newline, given those that follow. -/
inductive Skipped : List Char → List Char → Prop where
  /-- Nothing is left out. -/
  | nothing {after : List Char} : Skipped [] after
  /-- A blank that is no newline, and more. -/
  | blank {c : Char} {more after : List Char}
      (blank : Text.isBlank c = true)
      (inLine : c ≠ '\n')
      (later : Skipped more after) :
      Skipped (c :: more) after
  /-- A comment, and more. -/
  | comment {chars more after : List Char}
      (comment : Comment chars (more ++ after))
      (later : Skipped more after) :
      Skipped (chars ++ more) after

/-- Between the characters before and after them, the characters are as much as a bare word can
take. -/
inductive Extent : List Char → List Char → List Char → Prop where
  /-- A run of equality signs with no other on either side. -/
  | equals {before after : List Char} {count : Nat}
      (begins : '=' ∉ before.getLast?)
      (ends : '=' ∉ after.head?) :
      Extent before (List.replicate (count + 1) '=') after
  /-- Characters up to the next one that ends words, or up to the end. -/
  | word {before chars after : List Char}
      (goesOn : ∀ c ∈ chars, endsWord c = false)
      (ends : ∀ c ∈ after.head?, endsWord c = true) :
      Extent before chars after

/-- The lexeme can stand between the characters before and after it. -/
def Lexeme.Fits (before after : List Char) : Lexeme → Prop
  | .bare text => Bare text.toList ∧ Extent before text.toList after
  | .quoted text => '"' ∉ text.toList
  | .unclosed text => (∃ content, text.toList = '"' :: content ∧ '"' ∉ content) ∧ after = []
  | _ => True

theorem Lexeme.Fits.spelling_ne_nil
    {before after : List Char}
    {lexeme : Lexeme}
    (fits : lexeme.Fits before after) :
    lexeme.spelling ≠ [] := by
  cases lexeme with
  | newline | semicolon | opening | closing | quoted => exact List.cons_ne_nil _ _
  | unclosed text =>
      obtain ⟨⟨content, spelled, _⟩, _⟩ := fits
      simp [spelling, spelled]
  | bare text =>
      obtain ⟨bare, _⟩ := fits
      change text.toList ≠ []
      generalize text.toList = chars at bare
      cases bare with
      | plain spelled =>
          cases spelled with
          | equals | word => exact List.cons_ne_nil _ _
      | sharp => exact List.cons_ne_nil _ _

/-- Behind the characters before them, the characters are gaps and tokens in turn. -/
inductive Tiles : List Char → List Char → List Token → Prop where
  /-- There are no more tokens. -/
  | done {before gap : List Char} (skipped : Skipped gap []) : Tiles before gap []
  /-- A gap, a token and more. -/
  | token {before gap rest : List Char} {lexeme : Lexeme} {tokens : List Token}
      (skipped : Skipped gap (lexeme.spelling ++ rest))
      (fits : lexeme.Fits (before ++ gap) rest)
      (later : Tiles (before ++ gap ++ lexeme.spelling) rest tokens) :
      Tiles before (gap ++ (lexeme.spelling ++ rest))
        (⟨lexeme, (before ++ gap).length⟩ :: tokens)

/-! ## Behind the front of a text -/

/-- No run of equality signs goes on from the characters before to those after. -/
def Parted (before after : List Char) : Prop :=
  '=' ∈ before.getLast? → '=' ∉ after.head?

theorem parted_nil (after : List Char) : Parted [] after :=
  fun none => absurd none (by simp)

theorem parted_append
    (before after : List Char)
    {front : List Char}
    {c : Char}
    (last : c ∈ front.getLast?)
    (other : c ≠ '=') :
    Parted (before ++ front) after := by
  intro equal
  rw [List.getLast?_append, Option.mem_def.mp last] at equal
  exact absurd (Option.some.inj equal) other

theorem parted_append_word
    (before after : List Char)
    {front : List Char}
    (present : front ≠ [])
    (goesOn : ∀ c ∈ front, endsWord c = false) :
    Parted (before ++ front) after := by
  have plain := goesOn _ (List.getLast_mem present)
  exact parted_append before after (List.getLast?_eq_some_getLast present)
    (ne_of_endsWord plain (by decide))

theorem goesOn_of_sharp
    {first : Char}
    {others : List Char}
    (noComment : opensComment first = false)
    (goesOn : ∀ c ∈ others, endsWord c = false) :
    ∀ c ∈ '#' :: first :: others, endsWord c = false := by
  simpa using ⟨by decide, endsWord_of_opensComment noComment, goesOn⟩

/-- What the grammar takes does not end within a run of equality signs. -/
theorem Front.parted
    {lexeme? : Option Lexeme}
    {taken rest : List Char}
    (front : Front lexeme? taken rest)
    (takesSome : taken ≠ [])
    (before : List Char) :
    Parted (before ++ taken) rest := by
  cases front with
  | blanks blanks =>
      have blank := (blanks _ (List.getLast_mem takesSome)).1
      refine parted_append before rest (List.getLast?_eq_some_getLast takesSome) fun equal => ?_
      rw [equal] at blank
      exact absurd blank (by decide)
  | mark mark => cases mark <;> exact parted_append before rest rfl (by decide)
  | @quoted content _ quoteless =>
      have last : '"' ∈ ('"' :: (content ++ ['"'])).getLast? := by simp [List.getLast?_cons]
      exact parted_append before rest last (by decide)
  | unclosed quoteless => exact fun _ => by simp
  | comment opened inLine lineEnds =>
      exact fun _ equal => absurd (lineEnds _ equal) (by decide)
  | equality same ends => exact fun _ => ends
  | sharp noComment goesOn ends =>
      exact parted_append_word before rest takesSome (goesOn_of_sharp noComment goesOn)
  | word begins goesOn ends =>
      exact parted_append_word before rest takesSome
        (List.forall_mem_cons.mpr ⟨begins.1, goesOn⟩)

/-! ## The scanner tiles a text -/

/-- What is skipped before a tiling belongs to its first gap. -/
theorem Tiles.skip
    {before front rest : List Char}
    {tokens : List Token}
    (grows : ∀ gap after, rest = gap ++ after → Skipped gap after → Skipped (front ++ gap) after)
    (later : Tiles (before ++ front) rest tokens) :
    Tiles before (front ++ rest) tokens := by
  cases later with
  | done skipped => exact .done (grows rest [] (List.append_nil rest).symm skipped)
  | token skipped fits later =>
      rw [List.append_assoc before] at *
      rw [← List.append_assoc front]
      exact .token (grows _ _ rfl skipped) fits later

theorem Tiles.of_token
    {before taken rest : List Char}
    {lexeme : Lexeme}
    {tokens : List Token}
    (spelled : lexeme.spelling = taken)
    (fits : lexeme.Fits before rest)
    (later : Tiles (before ++ taken) rest tokens) :
    Tiles before (taken ++ rest) (⟨lexeme, before.length⟩ :: tokens) := by
  subst spelled
  rw [← List.append_nil before] at fits later
  have tiles := Tiles.token .nothing fits later
  rwa [List.nil_append, List.append_nil] at tiles

/-- A bare word stands between what is before it and what remains. -/
theorem Tiles.of_bare
    {before taken rest : List Char}
    {tokens : List Token}
    (bare : Bare taken)
    (extent : Extent before taken rest)
    (later : Tiles (before ++ taken) rest tokens) :
    Tiles before (taken ++ rest) (⟨.bare (String.ofList taken), before.length⟩ :: tokens) := by
  have fits : (Lexeme.bare (String.ofList taken)).Fits before rest := by
    simpa only [Lexeme.Fits, String.toList_ofList] using ⟨bare, extent⟩
  exact .of_token String.toList_ofList fits later

theorem Skipped.of_blanks
    {blanks more after : List Char}
    (alike : ∀ c ∈ blanks, Text.isBlank c = true ∧ c ≠ '\n')
    (later : Skipped more after) :
    Skipped (blanks ++ more) after := by
  induction blanks with
  | nil => exact later
  | cons c blanks inductionHypothesis =>
      rw [List.forall_mem_cons] at alike
      exact .blank alike.1.1 alike.1.2 (inductionHypothesis alike.2)

/-- What the grammar takes is the first token of a tiling, or belongs to its first gap. -/
theorem Tiles.of_front
    {before taken rest : List Char}
    {lexeme? : Option Lexeme}
    {tokens : List Token}
    (front : Front lexeme? taken rest)
    (parted : Parted before (taken ++ rest))
    (later : Tiles (before ++ taken) rest tokens) :
    Tiles before (taken ++ rest)
      ((lexeme?.toList.map fun lexeme => ⟨lexeme, before.length⟩) ++ tokens) := by
  cases front with
  | blanks blanks => exact later.skip fun gap after _ skipped => .of_blanks blanks skipped
  | mark mark => cases mark <;> exact .of_token rfl trivial later
  | quoted quoteless =>
      exact .of_token (by simp [Lexeme.spelling]) (by simpa [Lexeme.Fits] using quoteless) later
  | unclosed quoteless =>
      exact .of_token String.toList_ofList (by simpa [Lexeme.Fits] using quoteless) later
  | comment opened inLine lineEnds =>
      apply later.skip
      rintro gap after rfl skipped
      exact .comment (.intro opened inLine lineEnds) skipped
  | @equality others _ same ends =>
      obtain ⟨count, rfl⟩ : ∃ count, others = List.replicate count '=' :=
        ⟨_, List.eq_replicate_of_mem same⟩
      have begins : '=' ∉ before.getLast? := fun last => parted last rfl
      exact .of_bare (.plain (.equals count)) (.equals begins ends) later
  | sharp noComment goesOn ends =>
      exact .of_bare (.sharp noComment goesOn) (.word (goesOn_of_sharp noComment goesOn) ends) later
  | word begins goesOn ends =>
      exact .of_bare (.plain (.word begins goesOn))
        (.word (List.forall_mem_cons.mpr ⟨begins.1, goesOn⟩) ends) later

/-- The tokens that the scanner finds where nothing has begun tile what is left of the text. -/
theorem tiles_tokensFrom
    (before rest : List Char)
    (parted : Parted before rest) :
    Tiles before rest (Scan.tokensFrom before.length .between rest) := by
  by_cases present : rest = []
  · subst present
    exact .done .nothing
  obtain ⟨found, matched⟩ := Grammar.exists_firstMatch present
  have front := Grammar.isFront_of_firstMatch rest found matched
  have shorter := found.length_rest_lt
  have later := tiles_tokensFrom (before ++ found.taken) found.rest
    (front.parted found.takesSome before)
  have scanned := front.scanned before.length
  rw [← found.split] at parted
  have tiles := Tiles.of_front front parted later
  rw [List.length_append, ← scanned] at tiles
  rwa [found.split] at tiles
termination_by rest.length

/-! ## Tokenizations -/

/-- The token is spelled at its offset in the text and fits there. -/
def Token.StandsIn (chars : List Char) (token : Token) : Prop :=
  ∃ before after, chars = before ++ (token.lexeme.spelling ++ after) ∧
    before.length = token.offset ∧ token.lexeme.Fits before after

/-- The offsets at which the gaps around tokens begin and end, between two offsets of a text. -/
def gapsBetween (start stop : Nat) : List Token → List (Nat × Nat)
  | [] => [(start, stop)]
  | token :: later => (start, token.offset) :: gapsBetween token.stop stop later

/-- Between the offsets of a gap there are only blanks and comments. -/
def GapIn (chars : List Char) (gap : Nat × Nat) : Prop :=
  ∃ before skipped after, chars = before ++ (skipped ++ after) ∧
    before.length = gap.1 ∧ (before ++ skipped).length = gap.2 ∧ Skipped skipped after

/-- The tokens are all that a text consists of, blanks and comments apart. -/
structure Tokenization (chars : List Char) (tokens : List Token) : Prop where
  /-- Every token stands where its offset says and goes on as far as it can. -/
  standing : ∀ token ∈ tokens, token.StandsIn chars
  /-- Offsets increase. -/
  increasing : tokens.Pairwise fun earlier later => earlier.offset < later.offset
  /-- No two tokens overlap. -/
  apart : tokens.Pairwise fun earlier later => earlier.stop ≤ later.offset
  /-- There is nothing but blanks and comments before, between and behind the tokens. -/
  gaps : ∀ gap ∈ gapsBetween 0 chars.length tokens, GapIn chars gap
  /-- Only the last token can be a string that nothing closes. -/
  closed : ∀ token ∈ tokens.dropLast, ∀ text, token.lexeme ≠ .unclosed text

theorem Token.StandsIn.offset_lt_stop
    {chars : List Char}
    {token : Token}
    (stands : token.StandsIn chars) :
    token.offset < token.stop := by
  obtain ⟨before, after, _, _, fits⟩ := stands
  have longer := List.length_pos_iff.mpr fits.spelling_ne_nil
  rw [Token.stop]
  omega

theorem Token.StandsIn.stop_le_length
    {chars : List Char}
    {token : Token}
    (stands : token.StandsIn chars) :
    token.stop ≤ chars.length := by
  obtain ⟨before, after, rfl, offset, _⟩ := stands
  rw [Token.stop, List.length_append, List.length_append]
  omega

namespace Tiles

variable {before rest : List Char} {tokens : List Token}

theorem standsIn (tiles : Tiles before rest tokens) :
    ∀ token ∈ tokens, token.StandsIn (before ++ rest) := by
  induction tiles with
  | done skipped => simp
  | token skipped fits later inductionHypothesis =>
      rw [List.forall_mem_cons]
      refine ⟨⟨_, _, (List.append_assoc _ _ _).symm, rfl, fits⟩, ?_⟩
      simpa using inductionHypothesis

theorem length_le_offset (tiles : Tiles before rest tokens) :
    ∀ token ∈ tokens, before.length ≤ token.offset := by
  induction tiles with
  | done skipped => simp
  | token skipped fits later inductionHypothesis =>
      rw [List.forall_mem_cons]
      refine ⟨by simp, fun token present => ?_⟩
      have farther := inductionHypothesis token present
      simp only [List.length_append] at farther
      omega

theorem apart (tiles : Tiles before rest tokens) :
    tokens.Pairwise fun earlier later => earlier.stop ≤ later.offset := by
  induction tiles with
  | done skipped => exact .nil
  | token skipped fits later inductionHypothesis =>
      refine .cons (fun token present => ?_) inductionHypothesis
      have farther := later.length_le_offset token present
      rwa [List.length_append] at farther

theorem gaps (tiles : Tiles before rest tokens) :
    ∀ gap ∈ gapsBetween before.length (before ++ rest).length tokens,
      GapIn (before ++ rest) gap := by
  induction tiles with
  | done skipped =>
      rw [gapsBetween, List.forall_mem_singleton]
      exact ⟨_, _, [], by simp, rfl, rfl, skipped⟩
  | token skipped fits later inductionHypothesis =>
      rw [gapsBetween, List.forall_mem_cons]
      refine ⟨⟨_, _, _, rfl, rfl, rfl, skipped⟩, ?_⟩
      simpa [Token.stop, Nat.add_assoc] using inductionHypothesis

theorem increasing (tiles : Tiles before rest tokens) :
    tokens.Pairwise fun earlier later => earlier.offset < later.offset := by
  apply tiles.apart.imp_of_mem
  intro earlier later present _ apart
  exact Nat.lt_of_lt_of_le (tiles.standsIn earlier present).offset_lt_stop apart

/-- A string that nothing closes reaches to the end of the text, so that no token is behind it. -/
theorem closed (tiles : Tiles before rest tokens) :
    ∀ token ∈ tokens.dropLast, ∀ text, token.lexeme ≠ .unclosed text := by
  intro token early text unclosed
  have present : token ∈ tokens := (List.dropLast_sublist tokens).subset early
  have nonempty : tokens ≠ [] := List.ne_nil_of_mem present
  have apart := tiles.apart
  rw [← List.dropLast_concat_getLast nonempty, List.pairwise_append] at apart
  have behind : token.stop ≤ (tokens.getLast nonempty).offset :=
    apart.2.2 token early _ List.mem_cons_self
  have lastStands := tiles.standsIn _ (List.getLast_mem nonempty)
  obtain ⟨left, right, whole, offset, fits⟩ := tiles.standsIn token present
  rw [unclosed] at fits whole
  obtain ⟨_, rfl⟩ := fits
  have reaches : token.stop = (before ++ rest).length := by
    rw [Token.stop, whole, unclosed, List.append_nil, List.length_append, offset]
  have farther := Nat.lt_of_lt_of_le lastStands.offset_lt_stop lastStands.stop_le_length
  omega

end Tiles

/-- The grammar accepts every text, and the tokens that it finds are all that the expansion of the
text consists of, blanks and comments apart. -/
theorem text_is_tiled (text : String) :
    tokenize text.toList = .ok (tokens text.toList) ∧
      Tokenization (Text.expandTabs text.toList) (tokens text.toList) := by
  have tiles : Tiles [] (Text.expandTabs text.toList) (tokens text.toList) :=
    tiles_tokensFrom [] _ (parted_nil _)
  refine ⟨tokenize_eq text.toList, ?_⟩
  exact {
    standing := tiles.standsIn
    increasing := tiles.increasing
    apart := tiles.apart
    gaps := tiles.gaps
    closed := tiles.closed }

end Source
end Concatenative
