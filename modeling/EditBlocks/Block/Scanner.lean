import EditBlocks.Block.Marker
import EditBlocks.Edit
import EditBlocks.Log
import EditBlocks.Text.Line
import EditBlocks.Text.Quoted

/-!
# Reading edits out of a response

A response is read line by line. Outside envelopes every line but an opening
tag is prose. Inside, only blocks and noise may stand; inside a block every
line but a marker belongs to its text. A line that cannot stand where it does
is a `ParseError`, which names the line and quotes it.

The scanner is a function of a state and a line (`Block.State.step`), to a
state and perhaps an edit. A state says which of the four places the scanner
is in and what it has gathered there: the path of the envelope, the lines of
the text to find, those of the text to put there. What holds of whole
responses is shown of one line first and carried along the lines of a
response.

A response may be cut short. A last block whose replace marker is missing
still counts, without the code fences it ends with (`State.finish`); one that
breaks off in its search text is an error.

`Block.scan` gives every edit found before the end or the first error;
`Block.edits` gives all or nothing.
-/

namespace EditBlocks

/-- Where in the structure of a response a line stands. -/
inductive Section
  | outside
  | awaiting
  | search
  | replace
deriving DecidableEq

/-- The words for a place in an error message. -/
def Section.description : Section → Text
  | outside => "outside a CodeChange"
  | awaiting => "awaiting a search block"
  | search => "reading search text"
  | replace => "reading replace text"

/-- **Why a response cannot be read**, with the number of the line and the
words of it that stand there. -/
inductive ParseError
  /-- An opening tag names no file. -/
  | missingPath (line : Nat) (fragment : Text)
  /-- A line that may not stand where it does. -/
  | unexpectedSection (line : Nat) (fragment : Text) (place : Section)
deriving DecidableEq

namespace ParseError

/-- The number of the line that cannot be read. -/
def line : ParseError → Nat
  | missingPath line _ => line
  | unexpectedSection line _ _ => line

/-- The words quoted by the message. -/
def fragment : ParseError → Text
  | missingPath _ fragment => fragment
  | unexpectedSection _ fragment _ => fragment

/-- The message of a parse error. -/
def message : ParseError → Text
  | missingPath line fragment =>
    "CodeChange tag on line " ++ Text.ofNat line ++ " is missing a filename: " ++ fragment.quoted
  | unexpectedSection line fragment place =>
    "Unexpected next section on line " ++ Text.ofNat line ++ " while " ++ place.description ++ ": "
      ++ fragment.quoted

end ParseError

namespace Block

/-- **What has been read of the envelope and block at hand.** -/
inductive State
  /-- In prose. -/
  | outside
  /-- In the envelope of a file, between blocks. -/
  | awaiting (path : Text)
  /-- In the text to find, with its lines so far. -/
  | search (path : Text) (found : List Text)
  /-- In the text to put there, with the text to find and the lines so far. -/
  | replace (path : Text) (sought : Text) (found : List Text)
deriving DecidableEq

namespace State

/-- The place that a state stands for. -/
def place : State → Section
  | outside => .outside
  | awaiting _ => .awaiting
  | search _ _ => .search
  | replace _ _ _ => .replace

/-- **One line read**: the next state, and the edit if the line completes
one. The number of the line is for the error. -/
def step (number : Nat) (line : Text) (s : State) : Except ParseError (State × Option Edit) :=
  match s, Marker.ofLine? line with
  | outside, some .opening =>
    match Marker.path? line with
    | some path => .ok (awaiting path, none)
    | none => .error (.missingPath number line.trim)
  | outside, _ => .ok (outside, none)
  | awaiting path, some .search => .ok (search path [], none)
  | awaiting _, some .closing => .ok (outside, none)
  | awaiting path, none =>
    if Marker.isNoise line then .ok (awaiting path, none)
    else .error (.unexpectedSection number line.trim .awaiting)
  | search path found, some .divider => .ok (replace path found.flatten [], none)
  | search path found, none => .ok (search path (found ++ [line]), none)
  | replace path sought found, some .replace =>
    .ok (awaiting path, some ⟨path, sought, found.flatten⟩)
  | replace path sought found, none => .ok (replace path sought (found ++ [line]), none)
  | s, some _ => .error (.unexpectedSection number line.trim s.place)

/-- **Lines read one after the other**, numbered from the given number on:
the edits completed, and the state after the last line or the error that
stopped the reading. -/
def run (number : Nat) (s : State) : List Text → List Edit × Except ParseError State
  | [] => ([], .ok s)
  | line :: rest =>
    match s.step number line with
    | .error e => ([], .error e)
    | .ok (next, found) =>
      let (edits, last) := run (number + 1) next rest
      (found.toList ++ edits, last)

/-- The lines without the code fences at their end. -/
def dropFences (found : List Text) : List Text :=
  (found.reverse.dropWhile Marker.isFence).reverse

/-- **The end of a response**: a block that has its divider is completed, and
one that has not is an error on the last line. -/
def finish (count : Nat) : State → Except ParseError (Option Edit)
  | replace path sought found => .ok (some ⟨path, sought, (dropFences found).flatten⟩)
  | search _ _ => .error (.unexpectedSection count "<end of input>" .search)
  | _ => .ok none

/-- What is reported of the end of a response: a block completed there. -/
def finishLog : State → List Record
  | replace path _ _ => [.debug ("Closing truncated block for " ++ path ++ " at end of input")]
  | _ => []

end State

/-- **The outcome of scanning a response.** -/
structure Scan where
  /-- The edits found, up to the end or the error. -/
  edits : List Edit
  /-- The error that stopped the scan. -/
  error : Option ParseError
  /-- What was reported. -/
  log : List Record
deriving DecidableEq

/-- **The scan of a whole response.** -/
def scan (response : Text) : Scan :=
  let lines := response.lines
  match State.run 1 .outside lines with
  | (edits, .error e) => ⟨edits, some e, []⟩
  | (edits, .ok last) =>
    match last.finish lines.length with
    | .ok found => ⟨edits ++ found.toList, none, last.finishLog⟩
    | .error e => ⟨edits, some e, last.finishLog⟩

/-- How many lines of a response are opening tags. -/
def envelopeCount (response : Text) : Nat :=
  (response.lines.map Text.lineContent).countP fun line => Marker.ofLine? line = some .opening

/-- **The edits of a response**, or the error of the first line that cannot
be read. -/
def edits (response : Text) : Except ParseError (List Edit) :=
  let s := scan response
  match s.error with
  | some e => .error e
  | none => .ok s.edits

/-- What is reported while the edits of a response are read: how many were
found, and in how many envelopes. -/
def editsLog (response : Text) : List Record :=
  let s := scan response
  match s.error with
  | some _ => s.log
  | none =>
    s.log ++ [.debug ("Found " ++ Text.ofNat s.edits.length ++ " search/replace blocks in "
      ++ Text.ofNat (envelopeCount response) ++ " CodeChange tags")]

end Block

end EditBlocks
