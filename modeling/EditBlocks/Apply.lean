import EditBlocks.Block.Scanner
import EditBlocks.Snapshot
import EditBlocks.Text.Find

/-!
# Applying edits

Edits are applied one after the other, each to the text that the ones before
it left. An edit that creates its file needs that file to be empty or absent;
any other replaces the first occurrence of its search text, which has to be
there. The first edit that cannot be applied is an `ApplyError`, and then
there is no result at all.

The snapshot itself is only read while edits are made: what they make of a
file is kept as its draft, and the drafts are put into the snapshot when the
last edit has been made (`Snapshot.applyEdits`). That is how the program goes
about it, and it is not how one thinks of edits that are applied in order.
The two come to the same, snapshot by snapshot and error by error, which is
proved of the drafts once and used wherever edits are applied.

A response is applied by reading its edits first (`Snapshot.applyResponse`),
so a response that cannot be read to its end changes nothing either.
-/

namespace EditBlocks

/-- **Why an edit cannot be applied.** -/
inductive ApplyError
  /-- The text to find does not occur in the file. -/
  | searchNotFound (path search : Text)
  /-- The file to create holds text already. -/
  | fileExists (path : Text)
deriving DecidableEq

/-- The message of an error in applying edits. -/
def ApplyError.message : ApplyError → Text
  | searchNotFound path search => "Search text " ++ search ++ " not found in " ++ path
  | fileExists path =>
    "Empty search text targets " ++ path
      ++ ", which already has content; empty search blocks can only create new files"

namespace Edit

/-- **An edit of a text**: what the file holds after it. -/
def applyTo (e : Edit) (contents : Text) : Except ApplyError Text :=
  if e.creates then
    if contents = [] then .ok e.replacement else .error (.fileExists e.path)
  else
    match Text.cut? e.search contents with
    | some (before, after) => .ok (before ++ e.replacement ++ after)
    | none => .error (.searchNotFound e.path e.search)

/-- What is reported of an edit that is applied. -/
def report (e : Edit) : Record :=
  if e.creates then .debug ("Creating " ++ e.path)
  else .debug ("Replacing " ++ Text.ofNat e.search.length ++ " characters in " ++ e.path)

end Edit

namespace Snapshot

/-- The text of a file while edits are made: what they have made of it so
far, or else what the snapshot has. -/
def current (s : Snapshot) (drafts : OrderedMap Text Text) (path : Text) : Text :=
  match drafts.get? path with
  | some draft => draft
  | none => s.contents path

/-- One edit made: what it makes of its file is the file's draft from then
on. -/
def makeEdit (s : Snapshot) (drafts : OrderedMap Text Text) (e : Edit) :
    Except ApplyError (OrderedMap Text Text) :=
  (e.applyTo (s.current drafts e.path)).map (drafts.insert e.path)

/-- **Edits made in order**: the drafts of the files that they name. The
snapshot is only read. -/
def makeEdits (s : Snapshot) :
    OrderedMap Text Text → List Edit → Except ApplyError (OrderedMap Text Text)
  | drafts, [] => .ok drafts
  | drafts, e :: rest =>
    match s.makeEdit drafts e with
    | .ok drafts => s.makeEdits drafts rest
    | .error error => .error error

/-- **Edits applied to a snapshot, in order.** When all have been made, the
drafts are put into the snapshot. -/
def applyEdits (s : Snapshot) (edits : List Edit) : Except ApplyError Snapshot :=
  (s.makeEdits .empty edits).map fun drafts => s.updateAll drafts.entries

/-- What is reported while edits are made: those up to the first that cannot
be. -/
def makeLog (s : Snapshot) : OrderedMap Text Text → List Edit → List Record
  | _, [] => []
  | drafts, e :: rest =>
    match s.makeEdit drafts e with
    | .ok drafts => e.report :: s.makeLog drafts rest
    | .error _ => []

/-- What is reported while edits are applied. -/
def applyLog (s : Snapshot) (edits : List Edit) : List Record := s.makeLog .empty edits

end Snapshot

/-- **Why a response cannot be applied.** -/
inductive ResponseError
  | parse (error : ParseError)
  | apply (error : ApplyError)
deriving DecidableEq

namespace Snapshot

/-- **The edits of a response, applied to a snapshot.** -/
def applyResponse (s : Snapshot) (response : Text) : Except ResponseError Snapshot :=
  match Block.edits response with
  | .error e => .error (.parse e)
  | .ok edits => (s.applyEdits edits).mapError .apply

/-- What is reported while a response is applied. -/
def responseLog (s : Snapshot) (response : Text) : List Record :=
  Block.editsLog response ++
    match Block.edits response with
    | .error _ => []
    | .ok edits =>
      (if edits = [] then [.info "Response contained no search/replace blocks"] else [])
        ++ s.applyLog edits

end Snapshot

end EditBlocks
