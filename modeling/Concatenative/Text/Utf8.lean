/-!
# Decoding of UTF-8

Bytes are read one at a time. A byte that begins a character says how many bytes it still needs and
in which interval the next one lies; this excludes overlong forms, surrogates and numbers beyond the
last code point. A sequence that breaks off is cut before the byte that does not fit, so that a bad
piece is always as long as it could still have become a character.
-/

namespace Concatenative
namespace Text
namespace Utf8

/-- Why bytes are no character. -/
inductive Reason where
  /-- No character begins with the byte. -/
  | invalidStart
  /-- A byte follows that does not continue the character. -/
  | invalidContinuation
  /-- The bytes end within the character. -/
  | unexpectedEnd
  deriving DecidableEq

/-- The description of a reason. -/
def Reason.message : Reason → String
  | .invalidStart => "invalid start byte"
  | .invalidContinuation => "invalid continuation byte"
  | .unexpectedEnd => "unexpected end of data"

/-- A part of a sequence of bytes. -/
inductive Piece where
  /-- The bytes of a character. -/
  | char (c : Char)
  /-- Bytes that are no character: the position of the first, how many they are, the first itself,
  and the reason. -/
  | bad (position : Nat) (count : Nat) (first : UInt8) (reason : Reason)
  deriving DecidableEq

/-- A character of which bytes are still missing. -/
structure Partial where
  /-- The position of its first byte. -/
  position : Nat
  /-- Its first byte. -/
  first : UInt8
  /-- The number of bytes seen. -/
  count : Nat
  /-- The number of bytes missing after the next one. -/
  missing : Nat
  /-- The value of the bits seen. -/
  value : Nat
  /-- The least value of the next byte. -/
  low : Nat
  /-- The greatest value of the next byte. -/
  high : Nat

/-- What has begun before a byte. -/
abbrev State := Option Partial

/-- A byte where nothing has begun. -/
def opens (position : Nat) (byte : UInt8) : List Piece × State :=
  let code := byte.toNat
  let needs (missing value low high : Nat) : List Piece × State :=
    ([], some { position, first := byte, count := 1, missing, value, low, high })
  if code < 0x80 then ([.char (Char.ofNat code)], none)
  else if code < 0xC2 then ([.bad position 1 byte .invalidStart], none)
  else if code < 0xE0 then needs 0 (code - 0xC0) 0x80 0xBF
  else if code = 0xE0 then needs 1 0 0xA0 0xBF
  else if code = 0xED then needs 1 0xD 0x80 0x9F
  else if code < 0xF0 then needs 1 (code - 0xE0) 0x80 0xBF
  else if code = 0xF0 then needs 2 0 0x90 0xBF
  else if code < 0xF4 then needs 2 (code - 0xF0) 0x80 0xBF
  else if code = 0xF4 then needs 2 4 0x80 0x8F
  else ([.bad position 1 byte .invalidStart], none)

/-- The pieces that a byte completes, and what has begun after it. -/
def advance (position : Nat) (byte : UInt8) : State → List Piece × State
  | none => opens position byte
  | some begun =>
    if begun.low ≤ byte.toNat ∧ byte.toNat ≤ begun.high then
      let value := begun.value * 64 + (byte.toNat - 0x80)
      match begun.missing with
      | 0 => ([.char (Char.ofNat value)], none)
      | missing + 1 =>
        ([], some
          { begun with count := begun.count + 1, missing, value, low := 0x80, high := 0xBF })
    else
      let (pieces, state) := opens position byte
      (.bad begun.position begun.count begun.first .invalidContinuation :: pieces, state)

/-- The piece that the end of the bytes completes. -/
def finish : State → List Piece
  | none => []
  | some begun => [.bad begun.position begun.count begun.first .unexpectedEnd]

/-- The pieces of the rest of a sequence of bytes. -/
def piecesFrom (position : Nat) (state : State) : List UInt8 → List Piece
  | [] => finish state
  | byte :: rest =>
    let (pieces, next) := advance position byte state
    pieces ++ piecesFrom (position + 1) next rest

/-- The pieces of a sequence of bytes. -/
def pieces (bytes : List UInt8) : List Piece :=
  piecesFrom 0 none bytes

/-- The two digits of a byte in base sixteen. -/
def byteDigits (byte : UInt8) : List Char :=
  [Nat.digitChar (byte.toNat / 16), Nat.digitChar (byte.toNat % 16)]

/-- The description of bad bytes. -/
def failure (position count : Nat) (first : UInt8) (reason : Reason) : String :=
  "'utf-8' codec can't decode " ++
    (if count = 1 then
      "byte 0x" ++ String.ofList (byteDigits first) ++ " in position " ++ position.repr
    else
      "bytes in position " ++ position.repr ++ "-" ++ (position + count - 1).repr) ++
    ": " ++ reason.message

/-- The characters of pieces without a bad one, or the description of the first bad one. -/
def strictly : List Piece → Except String (List Char)
  | [] => .ok []
  | .char c :: rest => (strictly rest).map (c :: ·)
  | .bad position count first reason :: _ => .error (failure position count first reason)

/-- The character that stands for a bad piece. -/
def replacement : Char := '\ufffd'

/-- The text that bytes encode, or the description of the first bad piece. -/
def decode (bytes : List UInt8) : Except String (List Char) :=
  strictly (pieces bytes)

/-- The text that bytes encode, with each bad piece replaced. -/
def decodeLossy (bytes : List UInt8) : List Char :=
  (pieces bytes).map fun
    | .char c => c
    | .bad _ _ _ _ => replacement

end Utf8
end Text
end Concatenative
