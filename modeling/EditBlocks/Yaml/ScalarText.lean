import EditBlocks.Text.Hex
import EditBlocks.Yaml.Cursor

/-!
# The text of YAML scalars

The four ways of writing a scalar – plain, in single quotes, in double
quotes, as a block – and how the lines of each are folded into its text. A
single line break inside becomes a blank; of several, all but the first are
kept. A reader gives the text and the place after it, or nothing where the
text is malformed.

Each of them goes by turns: a run of characters on one line, then the white
space that follows with the line breaks in it. Both are recursions by a count
of steps that the length of the text bounds.
-/

namespace EditBlocks.Yaml

/-- **Line breaks and the blanks before them**, as the texts of the breaks,
up to the next character. `blank` tells which characters are passed over.
Inside a scalar no mark between documents may follow a break. -/
def readBreaks (blank : Char → Bool) : Nat → Cursor → Option (List Text × Cursor)
  | 0, _ => none
  | fuel + 1, p =>
    if p.seesDocumentMark then none
    else
      let p := (p.takeWhile blank).2
      match p.lineBreak with
      | ([], _) => some ([], p)
      | (text, p) => do
        let (more, p) ← readBreaks blank fuel p
        some (text :: more, p)

/-- A folded line break, with the breaks after it: a line feed alone becomes
a blank. -/
def fold (first : Text) (more : List Text) : Text :=
  (if first ≠ ['\n'] then first else if more = [] then [' '] else []) ++ more.flatten

/-! ## Quoted scalars

The two kinds of quotes differ in what is escaped: in single quotes only the
quote itself, by being doubled; in double quotes whatever stands behind a
backslash, the end of a line among it. -/

/-- The character that a letter after a backslash stands for. -/
def shortEscape? : Char → Option Char
  | '0' => some '\x00'
  | 'a' => some '\x07'
  | 'b' => some '\x08'
  | 't' => some '\t'
  | '\t' => some '\t'
  | 'n' => some '\n'
  | 'v' => some '\x0b'
  | 'f' => some '\x0c'
  | 'r' => some '\r'
  | 'e' => some '\x1b'
  | ' ' => some ' '
  | '"' => some '"'
  | '\\' => some '\\'
  | '/' => some '/'
  | 'N' => some '\x85'
  | '_' => some '\xa0'
  | 'L' => some '\u2028'
  | 'P' => some '\u2029'
  | _ => none

/-- How many digits give the code of a character after a letter. -/
def codeLength? : Char → Option Nat
  | 'x' => some 2
  | 'u' => some 4
  | 'U' => some 8
  | _ => none

/-- **The characters of a quoted scalar without white space**, up to the next
white space or the closing quote. -/
def readSolid (double : Bool) : Nat → Cursor → Option (Text × Cursor)
  | 0, _ => none
  | fuel + 1, p =>
    match p.rest with
    | [] => some ([], p)
    | c :: rest =>
      if isGap (some c) then some ([], p)
      else if c = '\'' && !double then
        if rest.head? = some '\'' then do
          let (more, p) ← readSolid double fuel (Cursor.skip 2 p)
          some ('\'' :: more, p)
        else some ([], p)
      else if c = '"' && double then some ([], p)
      else if c = '\\' && double then
        match rest with
        | [] => none
        | letter :: after =>
          match shortEscape? letter, codeLength? letter with
          | some decoded, _ => do
            let (more, p) ← readSolid double fuel (Cursor.skip 2 p)
            some (decoded :: more, p)
          | none, some length => do
            if after.length < length then none
            else
              let code ← hexNumber? (after.take length)
              let (more, p) ← readSolid double fuel (Cursor.skip (2 + length) p)
              some (charOfCode code :: more, p)
          | none, none =>
            if isBreak letter then do
              let (breaks, p) ←
                readBreaks (fun c => c = ' ' || c = '\t') (fuel + 1) p.next.lineBreak.2
              let (more, p) ← readSolid double fuel p
              some (breaks.flatten ++ more, p)
            else none
      else do
        let (more, p) ← readSolid double fuel p.next
        some (c :: more, p)

/-- **White space inside a quoted scalar**: blanks as they are, line breaks
folded. -/
def readSpace (fuel : Nat) (p : Cursor) : Option (Text × Cursor) :=
  let (blanks, p) := p.takeWhile fun c => c = ' ' || c = '\t'
  match p.peek with
  | none => none
  | some c =>
    if isBreak c then do
      let (first, p) := p.lineBreak
      let (more, p) ← readBreaks (fun c => c = ' ' || c = '\t') fuel p
      some (fold first more, p)
    else some (blanks, p)

/-- A quoted scalar after its opening quote. -/
def readQuotedFrom (double : Bool) : Nat → Cursor → Option (Text × Cursor)
  | 0, _ => none
  | fuel + 1, p => do
    let (solid, p) ← readSolid double (fuel + 1) p
    if p.sees (if double then '"' else '\'') then some (solid, p.next)
    else
      let (space, p) ← readSpace (fuel + 1) p
      let (more, p) ← readQuotedFrom double fuel p
      some (solid ++ space ++ more, p)

/-- **A quoted scalar.** -/
def readQuoted (double : Bool) (p : Cursor) : Option (Text × Cursor) :=
  readQuotedFrom double (p.rest.length + 1) p.next

/-! ## Plain scalars

A plain scalar ends before a colon or a number sign that white space makes a
sign, and inside brackets before commas and brackets as well. It cannot end
in white space. -/

/-- Whether a character is a sign of a collection that stands inside a
line. -/
def isFlowSign (c : Char) : Bool := c = ',' || c = '[' || c = ']' || c = '\x7b' || c = '\x7d'

/-- Whether a plain scalar ends before a place. -/
def endsPlain (inFlow : Bool) (p : Cursor) : Bool :=
  match p.peek with
  | none => true
  | some c =>
    isGap (some c)
      || (c = ':' && (isGap (p.peekAt 1)
        || (inFlow && (match p.peekAt 1 with | some c => isFlowSign c | none => false))))
      || (inFlow && (isFlowSign c || c = '?'))

/-- The characters of a plain scalar up to the next white space or its end. -/
def readPlainWord (inFlow : Bool) : Nat → Cursor → Text × Cursor
  | 0, p => ([], p)
  | fuel + 1, p =>
    if endsPlain inFlow p then ([], p)
    else
      let (more, after) := readPlainWord inFlow fuel p.next
      (p.rest.take 1 ++ more, after)

/-- **White space inside a plain scalar.** The texts are none where the
scalar ends; the truth value tells whether a line ended. -/
def readPlainSpace (p : Cursor) : Option Text × Bool × Cursor :=
  let (blanks, p) := p.takeWhile (· = ' ')
  match p.lineBreak with
  | ([], _) => (if blanks = [] then none else some blanks, false, p)
  | (first, p) =>
    if p.seesDocumentMark then (none, true, p)
    else
      match readPlainBreaks (p.rest.length + 1) p with
      | (none, p) => (none, true, p)
      | (some more, p) => (some (fold first more), true, p)
where
  /-- The line breaks and blanks after a first break; none where a mark
  between documents follows. -/
  readPlainBreaks : Nat → Cursor → Option (List Text) × Cursor
    | 0, p => (none, p)
    | fuel + 1, p =>
      let p := p.skipBlanks
      match p.lineBreak with
      | ([], _) => (some [], p)
      | (text, p) =>
        if p.seesDocumentMark then (none, p)
        else
          match readPlainBreaks fuel p with
          | (some more, p) => (some (text :: more), p)
          | (none, p) => (none, p)

/-- A plain scalar, with the white space that has been read before its next
word. The truth value tells whether a line ended inside it or after it. -/
def readPlainFrom (inFlow : Bool) (indent : Int) : Nat → Text → Cursor → Text × Bool × Cursor
  | 0, _, p => ([], false, p)
  | fuel + 1, space, p =>
    if p.sees '#' then ([], false, p)
    else
      match readPlainWord inFlow p.rest.length p with
      | ([], _) => ([], false, p)
      | (word, p) =>
        match readPlainSpace p with
        | (none, ended, p) => (space ++ word, ended, p)
        | (some after, ended, p) =>
          if p.sees '#' || (!inFlow && (p.column : Int) < indent) then (space ++ word, ended, p)
          else
            let (more, ended', q) := readPlainFrom inFlow indent fuel after p
            (space ++ word ++ more, if more = [] then ended else ended', q)

/-- **A plain scalar**: its text, whether a line ended after its last word,
and the place after it. -/
def readPlain (inFlow : Bool) (indent : Int) (p : Cursor) : Text × Bool × Cursor :=
  readPlainFrom inFlow indent (p.rest.length + 1) [] p

/-! ## Block scalars

A block is as far indented as its first line that is not empty, unless its
header says how far. What is kept of the line breaks at its end is up to the
header too. -/

/-- What is done with the line breaks at the end of a block scalar. -/
inductive Chomping
  /-- One is kept. -/
  | clip
  /-- None is kept. -/
  | strip
  /-- All are kept. -/
  | keep
deriving DecidableEq

/-- A sign for what is done with the last line breaks. -/
def chompingOf? : Option Char → Option Chomping
  | some '+' => some .keep
  | some '-' => some .strip
  | _ => none

/-- A digit for the indentation of a block scalar. -/
def indentOf? : Option Char → Option Nat
  | some c => if c.isDigit then some (c.toNat - 48) else none
  | none => none

/-- **The header of a block scalar** after its sign: what is done with the
last breaks, and by how much its lines are indented if that is said. The two
come in either order. -/
def readHeader (p : Cursor) : Option (Chomping × Option Nat × Cursor) :=
  let (chomping, indent, p) :=
    match chompingOf? p.peek with
    | some chomping =>
      match indentOf? p.next.peek with
      | some n => (chomping, some n, Cursor.skip 2 p)
      | none => (chomping, none, p.next)
    | none =>
      match indentOf? p.peek with
      | some n =>
        match chompingOf? p.next.peek with
        | some chomping => (chomping, some n, Cursor.skip 2 p)
        | none => (.clip, some n, p.next)
      | none => (.clip, none, p)
  if indent = some 0 then none
  else if endsLine p.peek || p.sees ' ' then some (chomping, indent, p)
  else none

/-- The rest of a line on which only a comment may stand, and its break. -/
def skipComment (p : Cursor) : Option Cursor :=
  let p := p.skipBlanks
  let p := if p.sees '#' then p.skipLine else p
  if endsLine p.peek then some p.lineBreak.2 else none

/-- The empty lines before the first line of a block scalar, and the greatest
column reached on them. -/
def readLeadingBreaks : Nat → Nat → Cursor → List Text × Nat × Cursor
  | 0, deepest, p => ([], deepest, p)
  | fuel + 1, deepest, p =>
    if p.sees ' ' then readLeadingBreaks fuel (max deepest p.next.column) p.next
    else
      match p.lineBreak with
      | ([], _) => ([], deepest, p)
      | (text, p) =>
        let (more, deepest, p) := readLeadingBreaks fuel deepest p
        (text :: more, deepest, p)

/-- Blanks up to a column. -/
def skipTo (column : Nat) : Nat → Cursor → Cursor
  | 0, p => p
  | fuel + 1, p =>
    if p.column < column && p.sees ' ' then skipTo column fuel p.next else p

/-- The empty lines between two lines of a block scalar. -/
def readBlockBreaks (column : Nat) : Nat → Cursor → List Text × Cursor
  | 0, p => ([], p)
  | fuel + 1, p =>
    let p := skipTo column (fuel + 1) p
    match p.lineBreak with
    | ([], _) => ([], p)
    | (text, p) =>
      let (more, p) := readBlockBreaks column fuel p
      (text :: more, p)

/-- Whether a line of a block scalar begins with white space. -/
def startsBlank (p : Cursor) : Bool := p.sees ' ' || p.sees '\t'

/-- **The lines of a block scalar**, from one of them on, with the empty
lines before it. -/
def readBlockLines (folded : Bool) (chomping : Chomping) (column : Nat) :
    Nat → List Text → Cursor → Text × Cursor
  | 0, _, p => ([], p)
  | fuel + 1, breaks, p =>
    let solid := !startsBlank p
    let (line, p) := p.takeWhile fun c => !isBreak c
    let (last, p) := p.lineBreak
    let (after, p) := readBlockBreaks column p.rest.length.succ p
    let shown := breaks.flatten ++ line
    if p.column = column && p.peek.isSome then
      let joint : Text :=
        if folded && last = ['\n'] && solid && !startsBlank p then
          if after = [] then [' '] else []
        else last
      let (more, p) := readBlockLines folded chomping column fuel after p
      (shown ++ joint ++ more, p)
    else
      let tail : Text := match chomping with
        | .clip => last
        | .strip => []
        | .keep => last ++ after.flatten
      (shown ++ tail, p)

/-- **A block scalar**, with the indentation of the node it belongs to. -/
def readBlock (folded : Bool) (indent : Int) (p : Cursor) : Option (Text × Cursor) := do
  let (chomping, increment, p) ← readHeader p.next
  let p ← skipComment p
  let least := (max (indent + 1) 1).toNat
  let fuel := p.rest.length + 1
  let (breaks, column, p) :=
    match increment with
    | none =>
      let (breaks, deepest, p) := readLeadingBreaks fuel 0 p
      (breaks, max least deepest, p)
    | some n =>
      let column := least + n - 1
      let (breaks, p) := readBlockBreaks column fuel p
      (breaks, column, p)
  if p.column = column && p.peek.isSome then
    some (readBlockLines folded chomping column fuel breaks p)
  else
    match chomping with
    | .keep => some (breaks.flatten, p)
    | _ => some ([], p)

end EditBlocks.Yaml
