import EditBlocks.Json.Error
import EditBlocks.Number.Shortest
import EditBlocks.Text.Quoted
import EditBlocks.Value.Basic

/-!
# Writing JSON

A value is written over several lines, four blanks to a level, in ASCII: a
character beyond it is written by its code, as one or two units of sixteen
bits. Sequences and mappings without parts stay on their line. There is no
line end after the last line.

An integer of more digits than are admitted has no form. Pieces of a text are
put out as soon as they are known, so some of it has been written by then,
and a file is left with the beginning of a text (`Json.part?`). No such
beginning can be read as a whole.
-/

namespace EditBlocks.Json

/-- A code unit, written as an escape. -/
def unitEscape (n : Nat) : Text := "\\u" ++ Text.hex 4 n

/-- One character inside a string. -/
def escapeChar (c : Char) : Text :=
  if c = '"' then "\\\""
  else if c = '\\' then "\\\\"
  else if c = '\n' then "\\n"
  else if c = '\r' then "\\r"
  else if c = '\t' then "\\t"
  else if c = '\x08' then "\\b"
  else if c = '\x0c' then "\\f"
  else if 32 ≤ c.toNat ∧ c.toNat < 127 then [c]
  else if c.toNat < 0x10000 then unitEscape c.toNat
  else
    unitEscape (0xd800 + (c.toNat - 0x10000) / 0x400)
      ++ unitEscape (0xdc00 + (c.toNat - 0x10000) % 0x400)

/-- **A string in quotes.** -/
def writeString (t : Text) : Text := '"' :: t.flatMap escapeChar ++ ['"']

/-- A number, with the words for what is not finite. -/
def writeNumber : Binary64 → Text
  | .nan => "NaN"
  | .infinite negative => if negative then "-Infinity" else "Infinity"
  | x => x.toText

/-- A scalar. Those that JSON has no form for, which no settings hold, are
written as none. -/
def writeScalar : Scalar → Text
  | .null => "null"
  | .bool b => if b then "true" else "false"
  | .int n => Text.ofInt n
  | .float x => writeNumber x
  | .text t => writeString t
  | .bytes _ | .date _ | .moment _ => "null"

/-- The name of an entry: a text as it is, another scalar by its JSON form. -/
def writeName : Scalar → Text
  | .text t => writeString t
  | s => '"' :: writeScalar s ++ ['"']

/-- The end of a line and the blanks before the next, at a level. -/
def newLine (level : Nat) : Text := '\n' :: List.replicate (4 * level) ' '

mutual

/-- A value at a level of nesting. What no settings hold is written as
none. -/
def writeValue (level : Nat) : Value → Text
  | .scalar s => writeScalar s
  | .tuple _ | .set _ => "null"
  | .sequence [] => "[]"
  | .sequence (v :: rest) =>
    '[' :: newLine (level + 1) ++ writeValue (level + 1) v ++ writeItems (level + 1) rest
      ++ newLine level ++ [']']
  | .mapping [] => ['\x7b', '\x7d']
  | .mapping ((k, v) :: rest) =>
    '\x7b' :: newLine (level + 1) ++ writeName k ++ ": " ++ writeValue (level + 1) v
      ++ writeEntries (level + 1) rest ++ newLine level ++ ['\x7d']

/-- The items of a sequence after the first. -/
def writeItems (level : Nat) : List Value → Text
  | [] => []
  | v :: rest => ',' :: newLine level ++ writeValue level v ++ writeItems level rest

/-- The entries of a mapping after the first. -/
def writeEntries (level : Nat) : List (Scalar × Value) → Text
  | [] => []
  | (k, v) :: rest =>
    ',' :: newLine level ++ writeName k ++ ": " ++ writeValue level v ++ writeEntries level rest

end

/-- **The JSON text of a value.** -/
def write (v : Value) : Text := writeValue 0 v

/-! ## What cannot be written

What is there of a value whose writing breaks off is found the same way as
its whole text is: the parts before the one that breaks off are written out,
and of that one its own beginning. -/

/-- Whether a scalar is an integer of more digits than are admitted. -/
def isTooLong : Scalar → Bool
  | .int n => maxDigits < (Text.ofNat n.natAbs).length
  | _ => false

mutual

/-- What is written of a value at a level of nesting before an integer in it
that is too long, if there is one. -/
def partBefore? (level : Nat) : Value → Option Text
  | .scalar s => if isTooLong s then some [] else none
  | .sequence items => partOfItems? (level + 1) ('[' :: newLine (level + 1)) items
  | .mapping entries => partOfEntries? (level + 1) ('\x7b' :: newLine (level + 1)) entries
  | .tuple _ | .set _ => none

/-- What is written of items, each after what leads to it. A scalar goes out
together with that. -/
def partOfItems? (level : Nat) (lead : Text) : List Value → Option Text
  | [] => none
  | v :: rest =>
    match partBefore? level v with
    | some part =>
      match v with
      | .scalar _ => some []
      | _ => some (lead ++ part)
    | none =>
      (partOfItems? level (',' :: newLine level) rest).map (lead ++ writeValue level v ++ ·)

/-- What is written of entries, each after what leads to it. -/
def partOfEntries? (level : Nat) (lead : Text) : List (Scalar × Value) → Option Text
  | [] => none
  | (k, v) :: rest =>
    match partBefore? level v with
    | some part => some (lead ++ writeName k ++ ": " ++ part)
    | none =>
      (partOfEntries? level (',' :: newLine level) rest).map
        (lead ++ writeName k ++ ": " ++ writeValue level v ++ ·)

end

/-- **What is written of a value that cannot be written**, up to the integer
that is too long. -/
def part? (v : Value) : Option Text := partBefore? 0 v

end EditBlocks.Json
