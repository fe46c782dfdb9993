import EditBlocks.Number.Shortest
import EditBlocks.Text.Quoted
import EditBlocks.Value.Basic

/-!
# Values shown in messages

A value inside a message is shown on one line: texts in quotes, sequences in
square brackets, mappings in braces, entries with a colon. Tuples stand in
round brackets, with a comma even after one value alone, and sets in braces,
but for the set without values. On its own a text is shown as it is
(`Value.toText`).

So is a setting when it is printed, and a whole configuration when it is
reported. Numbers are shown by their shortest decimals (`Binary64.toText`).
-/

namespace EditBlocks

/-- Two decimal digits at least. -/
def twoDigits (n : Nat) : Text :=
  List.replicate (2 - (Text.ofNat n).length) '0' ++ Text.ofNat n

/-- A day, as year, month and day. -/
def Date.display (d : Date) : Text :=
  List.replicate (4 - (Text.ofNat d.year).length) '0' ++ Text.ofNat d.year ++ "-"
    ++ twoDigits d.month ++ "-" ++ twoDigits d.day

/-- One byte between the given quotes: as the character of ASCII that it is
if it can be shown, or by its number. -/
def byteShown (quote : Char) (b : UInt8) : Text :=
  if b.toNat < 127 then Text.escapeChar quote (Char.ofNat b.toNat)
  else "\\x" ++ Text.hex 2 b.toNat

/-- **Bytes inside a larger value**, in the quotes of a text of the same
characters. -/
def bytesShown (bytes : List UInt8) : Text :=
  let quote := Text.quoteFor (bytes.map fun b => Char.ofNat b.toNat)
  'b' :: quote :: bytes.flatMap (byteShown quote) ++ [quote]

/-- A scalar inside a larger value. -/
def Scalar.display : Scalar → Text
  | null => "None"
  | bool b => if b then "True" else "False"
  | int n => Text.ofInt n
  | float x => x.toText
  | text t => t.quoted
  | bytes b => bytesShown b
  | date d => d.display
  | moment m =>
    m.date.display ++ " " ++ twoDigits m.hour ++ ":" ++ twoDigits m.minute ++ ":"
      ++ twoDigits m.second

namespace Value

mutual

/-- **A value inside a larger one or inside a message.** -/
def display : Value → Text
  | scalar s => s.display
  | sequence items => "[" ++ displayItems items ++ "]"
  | mapping entries => '\x7b' :: displayEntries entries ++ ['\x7d']
  | tuple items => "(" ++ displayItems items ++ (if items.length = 1 then ",)" else ")")
  | set [] => "set()"
  | set (v :: rest) => '\x7b' :: displayItems (v :: rest) ++ ['\x7d']

/-- The items of a sequence, with commas between them. -/
def displayItems : List Value → Text
  | [] => []
  | [v] => v.display
  | v :: rest => v.display ++ ", " ++ displayItems rest

/-- The entries of a mapping, with commas between them. -/
def displayEntries : List (Scalar × Value) → Text
  | [] => []
  | [(k, v)] => k.display ++ ": " ++ v.display
  | (k, v) :: rest => k.display ++ ": " ++ v.display ++ ", " ++ displayEntries rest

end

/-- **A value on its own**: a text as it is, any other value as inside a
message. -/
def toText : Value → Text
  | text t => t
  | v => v.display

end Value

end EditBlocks
