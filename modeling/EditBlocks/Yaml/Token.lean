import EditBlocks.Text.Basic

/-!
# The tokens of YAML

What a YAML text is made of, once its columns have been read: the beginnings
and ends of collections, the signs for entries, keys and values, the
properties of nodes, and scalars.
-/

namespace EditBlocks.Yaml

/-- **A tag as it is written**: a handle, if there is one, and what follows
it. -/
structure TagName where
  /-- The handle, which stands for the beginning of the tag. -/
  handle : Option Text
  /-- The rest of the tag. -/
  suffix : Text
deriving DecidableEq

/-- **A token.** -/
inductive Token
  /-- The version of the language that a text is written in. -/
  | version (major : Nat)
  /-- A handle and the beginning of a tag that it stands for. -/
  | tagDirective (handle start : Text)
  /-- A directive that means nothing. -/
  | otherDirective
  | documentStart
  | documentEnd
  | blockSequenceStart
  | blockMappingStart
  | blockEnd
  | flowSequenceStart
  | flowSequenceEnd
  | flowMappingStart
  | flowMappingEnd
  | blockEntry
  | flowEntry
  | key
  | value
  | alias (name : Text)
  | anchor (name : Text)
  | tag (name : TagName)
  /-- A scalar, and whether it is written without quotes or a header. -/
  | scalar (plain : Bool) (t : Text)
  | streamEnd
deriving DecidableEq

end EditBlocks.Yaml
