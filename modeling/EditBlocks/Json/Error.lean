import EditBlocks.Text.Basic

/-!
# Why a JSON text cannot be read or written

A fault in reading is a problem and the place where it was noticed. While
reading, the place is the number of characters left; the message counts
characters, lines and columns from the start. So a reader need not carry the
whole text with it, and the message is made where the text is at hand.

Writing has one fault only: an integer can be too long for it, and one that
is as long cannot be read either.
-/

namespace EditBlocks.Json

/-- What can be wrong with a JSON text. -/
inductive Problem
  | expectingValue
  | expectingName
  | expectingColon
  | expectingComma
  | unterminatedString
  | controlCharacter
  | invalidEscape
  | invalidUnicodeEscape
  | extraData
  | byteOrderMark
  /-- An integer of more digits than are admitted. -/
  | tooManyDigits (count : Nat)
deriving DecidableEq

/-- The greatest number of digits of an integer. -/
def maxDigits : Nat := 4300

/-- The words for a problem. -/
def Problem.description : Problem → Text
  | expectingValue => "Expecting value"
  | expectingName => "Expecting property name enclosed in double quotes"
  | expectingColon => "Expecting ':' delimiter"
  | expectingComma => "Expecting ',' delimiter"
  | unterminatedString => "Unterminated string starting at"
  | controlCharacter => "Invalid control character at"
  | invalidEscape => "Invalid \\escape"
  | invalidUnicodeEscape => "Invalid \\uXXXX escape"
  | extraData => "Extra data"
  | byteOrderMark => "Unexpected UTF-8 BOM (decode using utf-8-sig)"
  | tooManyDigits count =>
    "Exceeds the limit (" ++ Text.ofNat maxDigits
      ++ " digits) for integer string conversion: value has " ++ Text.ofNat count
      ++ " digits; use sys.set_int_max_str_digits() to increase the limit"

/-- **A problem and the number of characters left** where it was noticed. -/
structure Stop where
  /-- What is wrong. -/
  problem : Problem
  /-- How many characters were left. -/
  left : Nat
deriving DecidableEq

/-- The line of a text's end, counted from one. -/
def lineNumber (before : Text) : Nat := before.count '\n' + 1

/-- The column of a text's end, counted from one. -/
def columnNumber (before : Text) : Nat := (before.reverse.takeWhile (· ≠ '\n')).length + 1

/-- **The message of a fault in a text.** An integer that is too long is told
without its place. -/
def Stop.message (stop : Stop) (whole : Text) : Text :=
  match stop.problem with
  | .tooManyDigits _ => stop.problem.description
  | _ =>
    let position := whole.length - stop.left
    let before := whole.take position
    stop.problem.description ++ ": line " ++ Text.ofNat (lineNumber before) ++ " column "
      ++ Text.ofNat (columnNumber before) ++ " (char " ++ Text.ofNat position ++ ")"

/-- The message of an integer that is too long to be written. -/
def tooLongMessage : Text :=
  "Exceeds the limit (" ++ Text.ofNat maxDigits
    ++ " digits) for integer string conversion; use sys.set_int_max_str_digits()"
    ++ " to increase the limit"

end EditBlocks.Json
