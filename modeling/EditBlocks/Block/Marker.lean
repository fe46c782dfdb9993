import EditBlocks.Text.Blank
import EditBlocks.Text.Find
import EditBlocks.Text.Word

/-!
# Marker lines

The lines that give a response its structure. A file's blocks stand in an
**envelope**, between an opening tag that names the file and a closing tag; a
block is a search marker, the text to find, a divider, the text to put there,
and a replace marker. A marker starts its line and nothing but white space
follows it, so the same words further to the right are ordinary text.

Between the blocks of an envelope only **noise** may stand: blank lines and
code fences. A fence may be indented, where a marker may not.

The path of a file is the value of an attribute in the opening tag, and it is
looked for as a text: the first `file="` behind white space is where it
begins, wherever that stands, in another attribute's value as well
(`Marker.fileAttribute?`). Nothing else in the tag is looked at, but for how
it begins and that it ends with the only `>` in it.
-/

namespace EditBlocks

/-- What a marker line can be. -/
inductive Marker
  /-- The tag that opens an envelope. -/
  | opening
  /-- The tag that closes an envelope. -/
  | closing
  /-- The start of the text to find. -/
  | search
  /-- The end of the text to find. -/
  | divider
  /-- The end of the text to put there. -/
  | replace
deriving DecidableEq

namespace Marker

/-- How the opening tag begins. -/
def openingStart : Text := "<CodeChange"

/-- The closing tag. -/
def closingText : Text := "</CodeChange>"

/-- The search marker. -/
def searchText : Text := "<<<<<<< SEARCH"

/-- The divider. -/
def dividerText : Text := "======="

/-- The replace marker. -/
def replaceText : Text := ">>>>>>> REPLACE"

/-- The characters that begin a code fence. -/
def fence : Text := "```"

/-- The opening tag of a path. -/
def openingFor (path : Text) : Text := openingStart ++ " file=\"" ++ path ++ "\">"

/-- Whether the one `>` of a text is its last character. -/
def closesAtEnd : Text → Bool
  | [] => false
  | ['>'] => true
  | c :: t => c ≠ '>' && closesAtEnd t

/-- **Whether a text is an opening tag**: the tag's name, not followed by a
character that would make it longer, and then anything up to the one `>` at
the end. -/
def isOpening (t : Text) : Bool :=
  match Text.dropStart? openingStart t with
  | some (c :: rest) => !isWordChar c && closesAtEnd (c :: rest)
  | _ => false

/-- **The marker that a line holds**, if it holds one. White space at the end
of the line, its boundary included, does not count. -/
def ofLine? (line : Text) : Option Marker :=
  let t := line.trimEnd
  if t = searchText then some search
  else if t = dividerText then some divider
  else if t = replaceText then some replace
  else if t = closingText then some closing
  else if isOpening t then some opening
  else none

/-- The characters before a quotation mark, if there is one. -/
def beforeQuote? : Text → Option Text
  | [] => none
  | c :: t => if c = '"' then some [] else (beforeQuote? t).map (c :: ·)

/-- **The value of the first `file` attribute of a tag.** White space stands
before the attribute's name, and quotation marks around its value. -/
def fileAttribute? : Text → Option Text
  | [] => none
  | c :: t =>
    if isBlankChar c then
      match (Text.dropStart? "file=\"" t).bind beforeQuote? with
      | some value => some value
      | none => fileAttribute? t
    else fileAttribute? t

/-- The path that an opening tag names. An empty one does not count. -/
def path? (line : Text) : Option Text := (fileAttribute? line).filter (· ≠ [])

/-- Whether a line is a code fence, however far it is indented. -/
def isFence (line : Text) : Bool := line.trim.startsWith fence

/-- **Noise** may stand between blocks: a blank line or a code fence. -/
def isNoise (line : Text) : Bool := line.isBlank || isFence line

end Marker

end EditBlocks
