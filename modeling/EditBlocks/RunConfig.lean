import EditBlocks.Value.Basic

/-!
# What a run is told

How files are encoded, which records are shown, whether anything is written,
and which paths are left alone. The encoding, the level and the patterns are
kept as the values that were given for them, of whatever kind they are:
whether they make sense shows when they are used, and a run that does not use
them is none the worse for them.
-/

namespace EditBlocks

/-- **The configuration of a run.** -/
structure RunConfig where
  /-- The encoding of the files and of the response. -/
  encoding : Value
  /-- The least severe level of record to show. -/
  logLevel : Value
  /-- Whether to report the changes without making them. -/
  dryRun : Bool
  /-- The patterns of the paths that may not be edited. -/
  exclude : List Value

namespace RunConfig

/-- The encoding when none is given. -/
def usualEncoding : Value := .text "utf-8"

/-- The level when none is given. -/
def usualLevel : Value := .text "INFO"

/-- The configuration when nothing is given. -/
def usual : RunConfig := ⟨usualEncoding, usualLevel, false, []⟩

end RunConfig

end EditBlocks
