import EditBlocks.Text.Find

/-!
# A place in a YAML text

The characters that are left, with the number of those passed and the line
and column reached. Columns are what gives a YAML text its structure, and
lines are what a key has to fit on.

Three characters beside the usual ones end a line, and a carriage return with
the line feed after it ends one line.
-/

namespace EditBlocks.Yaml

/-- Whether a character ends a line. -/
def isBreak (c : Char) : Bool :=
  c = '\n' || c = '\r' || c = '\x85' || c = '\u2028' || c = '\u2029'

/-- Whether a place is at the end of a line or of the text. -/
def endsLine : Option Char → Bool
  | none => true
  | some c => isBreak c

/-- Whether a place is at white space or at an end. -/
def isGap : Option Char → Bool
  | none => true
  | some c => c = ' ' || c = '\t' || isBreak c

/-- **A place in a text.** -/
structure Cursor where
  /-- The characters that are left. -/
  rest : Text
  /-- How many have been passed. -/
  index : Nat
  /-- The line, counted from zero. -/
  line : Nat
  /-- The column, counted from zero. -/
  column : Nat

namespace Cursor

/-- The beginning of a text. -/
def start (t : Text) : Cursor := ⟨t, 0, 0, 0⟩

/-- The next character. -/
def peek (p : Cursor) : Option Char := p.rest.head?

/-- The character so many places further on. -/
def peekAt (p : Cursor) (n : Nat) : Option Char := p.rest[n]?

/-- Whether the next character is a given one. -/
def sees (p : Cursor) (c : Char) : Bool := p.peek = some c

/-- **One character passed.** After a line break comes a new line; a byte
order mark takes no column. -/
def next (p : Cursor) : Cursor :=
  match p.rest with
  | [] => p
  | c :: rest =>
    if isBreak c && !(c = '\r' && rest.head? = some '\n') then ⟨rest, p.index + 1, p.line + 1, 0⟩
    else ⟨rest, p.index + 1, p.line, if c = '\ufeff' then p.column else p.column + 1⟩

/-- So many characters passed. -/
def skip : Nat → Cursor → Cursor
  | 0, p => p
  | n + 1, p => skip n p.next

/-- The characters as long as they have a property, and the place after
them. -/
def takeWhile (p : Cursor) (q : Char → Bool) : Text × Cursor :=
  let taken := p.rest.takeWhile q
  (taken, skip taken.length p)

/-- The place after blanks. -/
def skipBlanks (p : Cursor) : Cursor := (p.takeWhile (· = ' ')).2

/-- The place at the end of the line. -/
def skipLine (p : Cursor) : Cursor := (p.takeWhile fun c => !isBreak c).2

/-- **One line break passed**, as the character it stands for: a line feed,
or itself if it is a line or paragraph separator. Nothing is passed where
there is none. -/
def lineBreak (p : Cursor) : Text × Cursor :=
  match p.rest with
  | '\r' :: '\n' :: _ => (['\n'], skip 2 p)
  | c :: _ =>
    if c = '\u2028' || c = '\u2029' then ([c], p.next)
    else if isBreak c then (['\n'], p.next)
    else ([], p)
  | [] => ([], p)

/-- Whether three characters stand here alone, between lines' beginnings and
white space. -/
def seesMark (p : Cursor) (mark : Text) : Bool :=
  Text.startsWith p.rest mark && isGap (p.peekAt 3)

/-- Whether a mark between documents stands here. -/
def seesDocumentMark (p : Cursor) : Bool := p.seesMark "---" || p.seesMark "..."

end Cursor

end EditBlocks.Yaml
