import EditBlocks.Disk.RealPath
import EditBlocks.Glob
import EditBlocks.Value.Basic

/-!
# Paths under a root

Which file a path of a response stands for (`Disk.resolve`). The path is read
from the root and links are replaced; what it then stands for must lie below
the root, and the path as it was written must match none of the patterns that
exclude paths.

So two different things are looked at: where the path leads, for the root,
and how it is spelled, for the patterns. A pattern can be got round by
another spelling, and the root cannot, but for links that lead to themselves,
which are not replaced.

The patterns come from a configuration and can be any values. One that is no
text is an error, but only when it is reached, that is when none of those
before it has matched.
-/

namespace EditBlocks

/-- **Why a path is not used.** -/
inductive PathError
  /-- It leads out of the root, or to the root itself, or it is excluded. -/
  | forbidden (path root : Text)
  /-- It holds a null character. -/
  | nullByte
  /-- It leads through more links inside links than there is room for. -/
  | tooDeep
  /-- What should be a pattern is not a text. -/
  | notAPattern (kind : Text)
deriving DecidableEq

/-- The message of a path that is not used. Bytes could be a pattern, but
only of paths that are bytes themselves. -/
def PathError.message : PathError → Text
  | forbidden path root =>
    "Refusing to edit " ++ path ++ ": it resolves outside " ++ root ++ " or is excluded"
  | nullByte => "embedded null byte"
  | tooDeep => "maximum recursion depth exceeded"
  | notAPattern kind =>
    if kind = "bytes" then "cannot use a bytes pattern on a string-like object"
    else "expected str, bytes or os.PathLike object, not " ++ kind

/-- **Whether one of the patterns matches a path.** Patterns are tried in
order, and what is not a text is an error only when it is reached. -/
def isExcluded (path : Text) : List Value → Except PathError Bool
  | [] => .ok false
  | .text pattern :: rest => if Glob.isMatch pattern path then .ok true else isExcluded path rest
  | v :: _ => .error (.notAPattern v.kind)

/-- Whether a path lies strictly below a root, both without links. -/
def isBelow (root full : Text) : Bool := Path.common root full = root && full ≠ root

namespace Disk

variable [Nesting]

/-- The path without links, as a path that is asked for. -/
def realPathFor (d : Disk) (path : Text) : Except PathError Text :=
  match d.realPath path with
  | .ok full => .ok full
  | .error .tooDeep => .error .tooDeep
  | .error _ => .error .nullByte

/-- **The path that an edit's path stands for under a root.** -/
def resolve (d : Disk) (root path : Text) (exclude : List Value) : Except PathError Text := do
  let root ← d.realPathFor root
  let full ← d.realPathFor (Path.join root path)
  if !isBelow root full then .error (.forbidden path root)
  else if ← isExcluded path exclude then .error (.forbidden path root)
  else .ok full

end Disk

end EditBlocks
