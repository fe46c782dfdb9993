import EditBlocks.Json.Error
import EditBlocks.Text.Find
import EditBlocks.Text.Hex
import EditBlocks.Value.Basic

/-!
# Reading JSON

Every reader takes the characters that are left and gives a value with the
characters left after it, or stops at a problem. Beside the standard there
are the words for what is not a finite number. The names of an object are
keys: a repeated one keeps its place and takes its last value.

Recursion is by a count of steps that the length of the text bounds. Each
value takes at least one character, so the count does not run out before the
text does, and nothing that is said of the reader mentions it but for being
large enough.

How far values may be nested is not the reader's own concern
(`Json.Nesting`); it reads to any depth.
-/

namespace EditBlocks.Json

/-- Whether a character is white space between tokens. -/
def isSpace (c : Char) : Bool := c = ' ' || c = '\t' || c = '\n' || c = '\r'

/-- The characters after white space. -/
def skip (t : Text) : Text := t.dropWhile isSpace

/-! ## Strings

A character beyond ASCII may be written by its code, and one beyond the first
65536 by the codes of two surrogates. A surrogate alone is no character. -/

/-- The number of four hexadecimal digits. -/
def fourDigits? (t : Text) : Option (Nat × Text) :=
  if t.length < 4 then none else (hexNumber? (t.take 4)).map fun n => (n, t.drop 4)

/-- **A character by its code**, after the backslash and the `u`. Two codes
can stand for one character. One character more than the four digits has to
follow. -/
def readUnicode (t : Text) : Except Stop (Char × Text) :=
  if t.length < 5 then .error ⟨.invalidUnicodeEscape, t.length + 1⟩
  else match fourDigits? t with
    | none => .error ⟨.invalidUnicodeEscape, t.length + 1⟩
    | some (high, rest) =>
      if 0xd800 ≤ high ∧ high < 0xdc00 ∧ 7 ≤ rest.length then
        match Text.dropStart? "\\u" rest with
        | none => .ok (charOfCode high, rest)
        | some after =>
          match fourDigits? after with
          | none => .error ⟨.invalidUnicodeEscape, rest.length - 1⟩
          | some (low, after) =>
            if 0xdc00 ≤ low ∧ low < 0xe000 then
              .ok (Char.ofNat (0x10000 + (high - 0xd800) * 0x400 + (low - 0xdc00)), after)
            else .ok (charOfCode high, rest)
      else .ok (charOfCode high, rest)

/-- The character that a letter after a backslash stands for. -/
def shortEscape? : Char → Option Char
  | '"' => some '"'
  | '\\' => some '\\'
  | '/' => some '/'
  | 'b' => some '\x08'
  | 'f' => some '\x0c'
  | 'n' => some '\n'
  | 'r' => some '\r'
  | 't' => some '\t'
  | _ => none

/-- **The characters of a string** and what follows its closing quote. The
first number is how much was left at its opening quote. -/
def readString (start : Nat) : Nat → Text → Except Stop (Text × Text)
  | 0, _ => .error ⟨.unterminatedString, start⟩
  | _ + 1, [] => .error ⟨.unterminatedString, start⟩
  | fuel + 1, c :: t =>
    if c = '"' then .ok ([], t)
    else if c = '\\' then
      match t with
      | [] => .error ⟨.unterminatedString, start⟩
      | 'u' :: rest => do
        let (decoded, rest) ← readUnicode rest
        let (more, rest) ← readString start fuel rest
        .ok (decoded :: more, rest)
      | letter :: rest =>
        match shortEscape? letter with
        | none => .error ⟨.invalidEscape, t.length + 1⟩
        | some decoded => do
          let (more, rest) ← readString start fuel rest
          .ok (decoded :: more, rest)
    else if c.toNat < 32 then .error ⟨.controlCharacter, t.length + 1⟩
    else do
      let (more, rest) ← readString start fuel t
      .ok (c :: more, rest)

/-! ## Numbers

A number without a fraction and an exponent is an integer of any size; any
other is rounded to a double. -/

/-- The number that a text of digits stands for. -/
def ofDigits (digits : Text) : Nat := digits.foldl (fun n c => 10 * n + (c.toNat - 48)) 0

/-- The fraction after an integer, as its digits; there is none without a
digit after the point. -/
def readFraction (t : Text) : Option Text × Text :=
  match t with
  | '.' :: rest =>
    match rest.takeWhile Char.isDigit with
    | [] => (none, t)
    | digits => (some digits, rest.dropWhile Char.isDigit)
  | _ => (none, t)

/-- A sign, as whether it is negative, and what follows it. -/
def readSign : Text → Bool × Text
  | '-' :: rest => (true, rest)
  | '+' :: rest => (false, rest)
  | t => (false, t)

/-- The exponent after a number; there is none without a digit. -/
def readExponent (t : Text) : Option Int × Text :=
  match t with
  | c :: rest =>
    if c = 'e' ∨ c = 'E' then
      let (negative, rest) := readSign rest
      match rest.takeWhile Char.isDigit with
      | [] => (none, t)
      | digits => (some (Binary64.signed negative (ofDigits digits)), rest.dropWhile Char.isDigit)
    else (none, t)
  | [] => (none, t)

/-- **A number**: an integer where neither a fraction nor an exponent follows
it. No digit may follow a leading zero. -/
def readNumber (t : Text) : Except Stop (Value × Text) :=
  let negative := t.head? = some '-'
  let body := if negative then t.drop 1 else t
  let digits := if body.head? = some '0' then ['0'] else body.takeWhile Char.isDigit
  if digits = [] then .error ⟨.expectingValue, t.length⟩
  else
    let rest := body.drop digits.length
    let (fraction, rest) := readFraction rest
    let (exponent, rest) := readExponent rest
    match fraction, exponent with
    | none, none =>
      if maxDigits < digits.length then .error ⟨.tooManyDigits digits.length, t.length⟩
      else .ok (.int (Binary64.signed negative (ofDigits digits)), rest)
    | _, _ =>
      let decimals := fraction.getD []
      .ok (.float (Binary64.ofDecimal negative (ofDigits (digits ++ decimals))
        (exponent.getD 0 - decimals.length)), rest)

/-! ## Values

The three readers of values, items and entries call one another. -/

/-- The words that are values. -/
def words : List (Text × Value) :=
  [("null", .null), ("true", .bool true), ("false", .bool false), ("NaN", .float .nan),
    ("Infinity", .float (.infinite false)), ("-Infinity", .float (.infinite true))]

/-- A word that is a value, at the beginning of a text. -/
def readWord? (t : Text) : Option (Value × Text) :=
  words.findSome? fun (word, v) => (Text.dropStart? word t).map fun rest => (v, rest)

mutual

/-- **A value**, where one has to begin. -/
def readValue : Nat → Text → Except Stop (Value × Text)
  | 0, t => .error ⟨.expectingValue, t.length⟩
  | fuel + 1, t =>
    match t with
    | '"' :: rest => do
      let (s, rest) ← readString t.length (fuel + 1) rest
      .ok (.text s, rest)
    | '[' :: rest =>
      match skip rest with
      | ']' :: rest => .ok (.sequence [], rest)
      | rest => do
        let (items, rest) ← readItems fuel rest
        .ok (.sequence items, rest)
    | '\x7b' :: rest =>
      match skip rest with
      | '\x7d' :: rest => .ok (.mapping [], rest)
      | rest => do
        let (entries, rest) ← readEntries fuel [] rest
        .ok (.mapping entries, rest)
    | t =>
      match readWord? t with
      | some found => .ok found
      | none => readNumber t

/-- The items of an array, from one of them to the closing bracket. -/
def readItems : Nat → Text → Except Stop ((List Value) × Text)
  | 0, t => .error ⟨.expectingValue, t.length⟩
  | fuel + 1, t => do
    let (v, rest) ← readValue fuel t
    match skip rest with
    | ']' :: rest => .ok ([v], rest)
    | ',' :: rest => do
      let (more, rest) ← readItems fuel (skip rest)
      .ok (v :: more, rest)
    | rest => .error ⟨.expectingComma, rest.length⟩

/-- The entries of an object, from a name to the closing brace, put after
those before. -/
def readEntries : Nat → List (Scalar × Value) → Text → Except Stop ((List (Scalar × Value)) × Text)
  | 0, _, t => .error ⟨.expectingName, t.length⟩
  | fuel + 1, entries, t =>
    match t with
    | '"' :: rest => do
      let (name, rest) ← readString t.length (fuel + 1) rest
      match skip rest with
      | ':' :: rest => do
        let (v, rest) ← readValue fuel (skip rest)
        let entries := Value.putKey (.text name) v entries
        match skip rest with
        | '\x7d' :: rest => .ok (entries, rest)
        | ',' :: rest => readEntries fuel entries (skip rest)
        | rest => .error ⟨.expectingComma, rest.length⟩
      | rest => .error ⟨.expectingColon, rest.length⟩
    | t => .error ⟨.expectingName, t.length⟩

end

/-- **The value of a JSON text.** White space may stand around it and nothing
else. -/
def read (t : Text) : Except Stop Value :=
  if t.head? = some '\ufeff' then .error ⟨.byteOrderMark, t.length⟩
  else
    match readValue (2 * t.length + 2) (skip t) with
    | .error stop => .error stop
    | .ok (v, rest) =>
      match skip rest with
      | [] => .ok v
      | rest => .error ⟨.extraData, rest.length⟩

end EditBlocks.Json
