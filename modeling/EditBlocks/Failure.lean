import EditBlocks.Apply
import EditBlocks.Containment
import EditBlocks.Encoding.Codecs
import EditBlocks.Log
import EditBlocks.Yaml.Reader

/-!
# Why a run fails

All that can go wrong in a run, by its cause. Each cause has an error of its
own with what it is about, and says it in its message.

Some causes lie in what the user gave, and the program expects them: a
response that cannot be read as edits or whose edits do not fit, a path that
is not allowed, a configuration file that is malformed, and all that the
system refuses. Those end the run with a message and an exit code. The others
are not expected and end it as they are (`Failure.isExpected`), whether or
not they lie in what the user gave as well.
-/

namespace EditBlocks

/-- **Why a configuration cannot be made of what was given.** -/
inductive ConfigError
  /-- The configuration file cannot be read. -/
  | yaml (e : Yaml.Error)
  /-- What should be made of items is not. -/
  | notIterable (kind : Text)
  /-- An item that should be a key and its value has another number of
  parts. -/
  | notAPair (index length : Nat)
  /-- An item that should be a key and its value has no parts. -/
  | noParts (index : Nat)
  /-- What should be a key cannot be one. -/
  | unhashable (kind : Text)
deriving DecidableEq

/-- The message of a configuration that cannot be made. The details of a
malformed file are left out. -/
def ConfigError.message : ConfigError → Text
  | yaml .malformed => "<YAMLError>"
  | yaml (.unexpected _ message) => message
  | notIterable kind => "'" ++ kind ++ "' object is not iterable"
  | notAPair index length =>
    "dictionary update sequence element #" ++ Text.ofNat index ++ " has length "
      ++ Text.ofNat length ++ "; 2 is required"
  | noParts index =>
    "cannot convert dictionary update sequence element #" ++ Text.ofNat index ++ " to a sequence"
  | unhashable kind => "unhashable type: '" ++ kind ++ "'"

/-- **Why a run fails.** -/
inductive Failure
  | parse (e : ParseError)
  | apply (e : ApplyError)
  | path (e : PathError)
  | disk (e : DiskError)
  | encoding (e : EncodingError)
  | config (e : ConfigError)
  | level (e : LevelError)
deriving DecidableEq

namespace Failure

/-- The message of a failure. -/
def message : Failure → Text
  | parse e => e.message
  | apply e => e.message
  | path e => e.message
  | disk e => e.message
  | encoding e => e.message
  | config e => e.message
  | level e => e.message

/-- **Whether a failure ends a run with an exit code**: a response that
cannot be read or applied, a path that is not allowed, what the system
refuses, and a malformed configuration file. -/
def isExpected : Failure → Bool
  | parse _ => true
  | apply _ => true
  | path (.forbidden _ _) => true
  | disk (.refused _ _) => true
  | config (.yaml .malformed) => true
  | _ => false

end Failure

end EditBlocks
