import EditBlocks.Yaml.ScalarText
import EditBlocks.Yaml.Token

/-!
# The tokens of a YAML text

A text is read from token to token. Its indentation opens and closes
collections, so tokens arise that no character stands for. What turns out to
be a key is known only when the colon after it is met: until then the place
is kept as a `PossibleKey`, and the tokens that make it a key are put in
front of it afterwards. A key has to fit on its line.

The reader's state is the place in the text, the indentations that are open,
the brackets that are, and the possible keys, one for each level of brackets.
Reading a token changes the state and adds to the tokens. A malformed text
has no tokens (`Yaml.tokens?`).
-/

namespace EditBlocks.Yaml

/-- **A place that may turn out to be a key.** -/
structure PossibleKey where
  /-- How many tokens come before it. -/
  number : Nat
  /-- Whether it has to be one. -/
  required : Bool
  /-- Where it begins. -/
  place : Cursor

/-- **What has been read of a text**, with what its indentation asks for. -/
structure TokenReader where
  /-- The place in the text. -/
  place : Cursor
  /-- How many collections with brackets are open. -/
  flow : Nat
  /-- The column of the collection by indentation that is open, or minus
  one. -/
  indent : Int
  /-- The columns of those around it. -/
  indents : List Int
  /-- Whether a key may begin here. -/
  keyAllowed : Bool
  /-- The places that may be keys, by the number of brackets around them. -/
  keys : List (Nat × PossibleKey)
  /-- The tokens so far. -/
  tokens : List Token

namespace TokenReader

/-- The beginning of a text. -/
def start (t : Text) : TokenReader := ⟨Cursor.start t, 0, -1, [], true, [], []⟩

/-- The reader with a token more. -/
def emit (r : TokenReader) (t : Token) : TokenReader := { r with tokens := r.tokens ++ [t] }

/-- The reader at another place. -/
def moveTo (r : TokenReader) (p : Cursor) : TokenReader := { r with place := p }

/-- The reader with keys allowed or not. -/
def allowKey (r : TokenReader) (allowed : Bool) : TokenReader := { r with keyAllowed := allowed }

/-- Whether the reader is inside brackets. -/
def inFlow (r : TokenReader) : Bool := r.flow ≠ 0

/-- The column of the place. -/
def column (r : TokenReader) : Int := r.place.column

/-! ## Possible keys

A place is given up as a key when its line ends or it has become too long.
Where a key is required, in a block mapping at its own column, giving it up
is an error. -/

/-- The greatest length of a key. -/
def maxKeyLength : Nat := 1024

/-- Whether a place can no longer be a key: its line is over, or it is too
long. -/
def isStale (r : TokenReader) (key : PossibleKey) : Bool :=
  key.place.line ≠ r.place.line || maxKeyLength < r.place.index - key.place.index

/-- The reader without the places that can no longer be keys. None of them
may be required. -/
def dropStale (r : TokenReader) : Option TokenReader :=
  if r.keys.any fun (_, key) => r.isStale key && key.required then none
  else some { r with keys := r.keys.filter fun (_, key) => !r.isStale key }

/-- The place that may be a key inside the brackets at hand. -/
def key? (r : TokenReader) : Option PossibleKey :=
  (r.keys.find? fun e => e.1 = r.flow).map Prod.snd

/-- The reader without that place. -/
def forgetKey (r : TokenReader) : TokenReader :=
  { r with keys := r.keys.filter fun e => e.1 ≠ r.flow }

/-- The reader without that place, which must not be required. -/
def dropKey (r : TokenReader) : Option TokenReader :=
  match r.key? with
  | some key => if key.required then none else some r.forgetKey
  | none => some r

/-- **The reader with its place as a possible key**, where keys are
allowed. -/
def saveKey (r : TokenReader) : Option TokenReader :=
  if r.keyAllowed then do
    let required := !r.inFlow && r.indent = r.column
    let r ← r.dropKey
    some { r with keys := (r.flow, ⟨r.tokens.length, required, r.place⟩) :: r.keys }
  else some r

/-! ## Indentation

A line that begins further to the left than a collection closes it. -/

/-- The collections that a column closes: the tokens for their ends, and the
indentation after. -/
def closed (column : Int) : Int → List Int → List Token × Int × List Int
  | indent, [] => ([], indent, [])
  | indent, outer :: rest =>
    if column < indent then
      let (ends, indent, indents) := closed column outer rest
      (.blockEnd :: ends, indent, indents)
    else ([], indent, outer :: rest)

/-- **The reader with the collections closed that a column ends.** Inside
brackets none is. -/
def unwind (r : TokenReader) (column : Int) : TokenReader :=
  if r.inFlow then r
  else
    let (ends, indent, indents) := closed column r.indent r.indents
    { r with tokens := r.tokens ++ ends, indent := indent, indents := indents }

/-- The reader with a collection opened at a column, if that is further to
the right, and its token put before a given number of tokens. -/
def openAt (r : TokenReader) (column : Int) (t : Token) (number : Nat) : TokenReader :=
  if r.indent < column then
    { r with
      indent := column
      indents := r.indent :: r.indents
      tokens := r.tokens.take number ++ t :: r.tokens.drop number }
  else r

/-- The reader with a collection opened here, if that is further to the
right. -/
def openHere (r : TokenReader) (t : Token) : TokenReader :=
  r.openAt r.column t r.tokens.length

/-! ## White space

Between tokens there are blanks, comments and line ends. After a line end a
key may begin outside of brackets. -/

/-- The reader after blanks, comments and line breaks. A new line allows a
key. -/
def skipGaps : Nat → TokenReader → TokenReader
  | 0, r => r
  | fuel + 1, r =>
    let p := r.place.skipBlanks
    let p := if p.sees '#' then p.skipLine else p
    match p.lineBreak with
    | ([], _) => r.moveTo p
    | (_, p) => skipGaps fuel { r with place := p, keyAllowed := r.keyAllowed || !r.inFlow }

/-- The place after a byte order mark at the beginning. -/
def skipMark (r : TokenReader) : TokenReader :=
  if r.place.index = 0 && r.place.sees '\ufeff' then r.moveTo r.place.next else r

/-! ## Directives, anchors and tags

These have names and numbers of their own, which end with white space or the
end of the text. -/

/-- Whether a character can stand in a name. -/
def isNameChar (c : Char) : Bool := c.isAlphanum || c = '-' || c = '_'

/-- A name, which may not be empty. -/
def readName (p : Cursor) : Option (Text × Cursor) :=
  match p.takeWhile isNameChar with
  | ([], _) => none
  | found => some found

/-- A number. -/
def readNumber (p : Cursor) : Option (Nat × Cursor) :=
  match p.takeWhile Char.isDigit with
  | ([], _) => none
  | (digits, p) => some (digits.foldl (fun n c => 10 * n + (c.toNat - 48)) 0, p)

/-- Whether the line ends here, or a blank follows. -/
def endsWord (p : Cursor) : Bool := endsLine p.peek || p.sees ' '

/-- The handle of a tag: one exclamation mark before a blank, or two with or
without a name between them. -/
def readHandle (p : Cursor) : Option (Text × Cursor) :=
  if !p.sees '!' then none
  else if p.peekAt 1 = some ' ' then some (['!'], p.next)
  else
    let (name, q) := p.next.takeWhile isNameChar
    if q.sees '!' then some ('!' :: name ++ ['!'], q.next) else none

/-- The characters of a tag that stand for themselves. -/
def isUriChar (c : Char) : Bool :=
  c.isAlphanum || c ∈ "-;/?:@&=+$,_.!~*'()[]%".toList

/-- The characters of a tag, codes in hexadecimal included. -/
def readUri (p : Cursor) : Option (Text × Cursor) :=
  match p.takeWhile isUriChar with
  | ([], _) => none
  | (t, p) => if wellEscaped t then some (t, p) else none
where
  /-- Whether two hexadecimal digits follow every percent sign. -/
  wellEscaped : Text → Bool
    | [] => true
    | '%' :: a :: b :: t => (hexDigit? a).isSome && (hexDigit? b).isSome && wellEscaped t
    | '%' :: _ => false
    | _ :: t => wellEscaped t

/-- **A directive.** -/
def readDirective (p : Cursor) : Option (Token × Cursor) := do
  let (name, p) ← readName p.next
  if !endsWord p then none
  else if name = ("YAML" : Text) then
    let (major, p) ← readNumber p.skipBlanks
    if !p.sees '.' then none
    else
      let (_, p) ← readNumber p.next
      if !endsWord p then none
      else
        let p ← skipComment p
        some (.version major, p)
  else if name = ("TAG" : Text) then
    let (handle, p) ← readHandle p.skipBlanks
    if !p.sees ' ' then none
    else
      let (beginning, p) ← readUri p.skipBlanks
      if !endsWord p then none
      else
        let p ← skipComment p
        some (.tagDirective handle beginning, p)
  else
    let p ← skipComment p.skipLine
    some (.otherDirective, p)

/-- What may follow the name of an anchor or alias. -/
def endsAnchor (p : Cursor) : Bool :=
  match p.peek with
  | none => true
  | some c => isGap (some c) || c ∈ "?:,]\x7d%@`".toList

/-- The name of an anchor or alias. -/
def readAnchor (p : Cursor) : Option (Text × Cursor) := do
  let (name, p) ← readName p.next
  if endsAnchor p then some (name, p) else none

/-- **A tag.** -/
def readTag (p : Cursor) : Option (TagName × Cursor) := do
  let (name, p) ← match p.peekAt 1 with
    | some '<' => do
      let (suffix, p) ← readUri (Cursor.skip 2 p)
      if p.sees '>' then some ((⟨none, suffix⟩ : TagName), p.next) else none
    | c =>
      if isGap c then some (⟨none, ['!']⟩, p.next)
      else
        let word := p.next.rest.takeWhile fun c => c ≠ ' ' && !isBreak c
        let (handle, p) ← if '!' ∈ word then readHandle p else some (['!'], p.next)
        let (suffix, p) ← readUri p
        some (⟨some handle, suffix⟩, p)
  if endsWord p then some (name, p) else none

/-! ## Tokens

One function for each kind of token, and `readToken` chooses among them by
the character at hand. -/

/-- The reader after one of the signs of brackets or commas. -/
def passSign (r : TokenReader) (t : Token) : TokenReader := (r.moveTo r.place.next).emit t

/-- An opening bracket. -/
def openBracket (r : TokenReader) (t : Token) : Option TokenReader := do
  let r ← r.saveKey
  some (({ r with flow := r.flow + 1 }.allowKey true).passSign t)

/-- A closing bracket. One that closes nothing is malformed. -/
def closeBracket (r : TokenReader) (t : Token) : Option TokenReader := do
  let r ← r.dropKey
  if r.flow = 0 then none
  else some (({ r with flow := r.flow - 1 }.allowKey false).passSign t)

/-- A comma. -/
def comma (r : TokenReader) : Option TokenReader := do
  let r ← (r.allowKey true).dropKey
  some (r.passSign .flowEntry)

/-- The sign of an entry of a sequence by indentation. -/
def entry (r : TokenReader) : Option TokenReader := do
  if !r.inFlow && !r.keyAllowed then none
  else
    let r := if r.inFlow then r else r.openHere .blockSequenceStart
    let r ← (r.allowKey true).dropKey
    some (r.passSign .blockEntry)

/-- The sign of a key. -/
def explicitKey (r : TokenReader) : Option TokenReader := do
  if !r.inFlow && !r.keyAllowed then none
  else
    let r := if r.inFlow then r else r.openHere .blockMappingStart
    let r ← (r.allowKey !r.inFlow).dropKey
    some (r.passSign .key)

/-- **The sign of a value.** If something before it may be a key, it is
one. -/
def value (r : TokenReader) : Option TokenReader :=
  match r.key? with
  | some key =>
    let r := r.forgetKey
    let r := { r with tokens := r.tokens.take key.number ++ Token.key :: r.tokens.drop key.number }
    let r := if r.inFlow then r else r.openAt key.place.column .blockMappingStart key.number
    some ((r.allowKey false).passSign .value)
  | none => do
    if !r.inFlow && !r.keyAllowed then none
    else
      let r := if r.inFlow then r else r.openHere .blockMappingStart
      let r ← (r.allowKey !r.inFlow).dropKey
      some (r.passSign .value)

/-- The reader after something that may be a key, as a token and the place
after it. -/
def keyLike (r : TokenReader) (read : Cursor → Option (Token × Cursor)) : Option TokenReader := do
  let r ← r.saveKey
  let (t, p) ← read r.place
  some (((r.allowKey false).moveTo p).emit t)

/-- The reader after a plain scalar. A line that ends after it allows a
key. -/
def plain (r : TokenReader) : Option TokenReader := do
  let r ← r.saveKey
  let (t, ended, p) := readPlain r.inFlow (r.indent + 1) r.place
  some (((r.allowKey ended).moveTo p).emit (.scalar true t))

/-- The reader after a block scalar. -/
def block (r : TokenReader) (folded : Bool) : Option TokenReader := do
  let r ← (r.allowKey true).dropKey
  let (t, p) ← readBlock folded r.indent r.place
  some ((r.moveTo p).emit (.scalar false t))

/-- The reader after a mark between documents. -/
def documentMark (r : TokenReader) (t : Token) : Option TokenReader := do
  let r ← (r.unwind (-1)).dropKey
  some (((r.allowKey false).moveTo (Cursor.skip 3 r.place)).emit t)

/-- The reader after a directive. -/
def directive (r : TokenReader) : Option TokenReader := do
  let r ← (r.unwind (-1)).dropKey
  let (t, p) ← readDirective r.place
  some (((r.allowKey false).moveTo p).emit t)

/-- Whether a plain scalar can begin with a character. -/
def startsPlain (r : TokenReader) (c : Char) : Bool :=
  let next := r.place.peekAt 1
  if c = '-' then !isGap next
  else if c = '?' || c = ':' then !isGap next && !r.inFlow
  else !isGap (some c) && c ∉ ",[]\x7b\x7d#&*!|>'\"%@`".toList

/-- **The reader after the next token.** -/
def readToken (r : TokenReader) (c : Char) : Option TokenReader :=
  let p := r.place
  let atGap := isGap (p.peekAt 1)
  if c = '%' && p.column = 0 then r.directive
  else if p.column = 0 && p.seesMark "---" then r.documentMark .documentStart
  else if p.column = 0 && p.seesMark "..." then r.documentMark .documentEnd
  else if c = '[' then r.openBracket .flowSequenceStart
  else if c = '\x7b' then r.openBracket .flowMappingStart
  else if c = ']' then r.closeBracket .flowSequenceEnd
  else if c = '\x7d' then r.closeBracket .flowMappingEnd
  else if c = ',' then r.comma
  else if c = '-' && atGap then r.entry
  else if c = '?' && (r.inFlow || atGap) then r.explicitKey
  else if c = ':' && (r.inFlow || atGap) then r.value
  else if c = '*' then r.keyLike fun p => (readAnchor p).map fun (t, p) => (.alias t, p)
  else if c = '&' then r.keyLike fun p => (readAnchor p).map fun (t, p) => (.anchor t, p)
  else if c = '!' then r.keyLike fun p => (readTag p).map fun (t, p) => (.tag t, p)
  else if c = '|' && !r.inFlow then r.block false
  else if c = '>' && !r.inFlow then r.block true
  else if c = '\'' then
    r.keyLike fun p => (readQuoted false p).map fun (t, p) => (.scalar false t, p)
  else if c = '"' then r.keyLike fun p => (readQuoted true p).map fun (t, p) => (.scalar false t, p)
  else if r.startsPlain c then r.plain
  else none

/-- The tokens at the end of a text. -/
def finish (r : TokenReader) : Option (List Token) := do
  let r ← (r.unwind (-1)).dropKey
  some (r.tokens ++ [.streamEnd])

/-- The tokens up to the end of the text. -/
def readAll : Nat → TokenReader → Option (List Token)
  | 0, _ => none
  | fuel + 1, r => do
    let r ← (skipGaps (r.place.rest.length + 1) r.skipMark).dropStale
    let r := r.unwind r.column
    match r.place.peek with
    | none => r.finish
    | some c => do
      let r ← r.readToken c
      readAll fuel r

end TokenReader

/-- Whether a character can stand in a YAML text. -/
def isAdmitted (c : Char) : Bool :=
  let n := c.toNat
  n = 9 || n = 10 || n = 13 || (0x20 ≤ n && n ≤ 0x7e) || n = 0x85 || (0xa0 ≤ n && n ≤ 0xfffd)
    || 0x10000 ≤ n

/-- **The tokens of a text**, if it is well formed so far. -/
def tokens? (t : Text) : Option (List Token) :=
  if t.all isAdmitted then TokenReader.readAll (t.length + 2) (TokenReader.start t) else none

end EditBlocks.Yaml
