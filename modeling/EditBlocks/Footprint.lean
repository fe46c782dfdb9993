import EditBlocks.Command

/-!
# What a run touches

The paths that a run of the program looks at, as far as they can be told from
its arguments and from what is known of the disk (`Program.footprint`), and
what it leaves changed (`Disk.changesSince`). Whoever holds only a part of a
disk can tell from the one which part a run needs, and from the other which
part to write back.

The paths of a response are known once the response has been read, and those
of a configuration file bear on how it is read. So what is needed is asked
for again when more of the disk is known. Two rounds are enough, as nothing
that a run reads after the files of its edits names further paths.
-/

namespace EditBlocks

/-- **What stands elsewhere than before**, in order of its coming.
Directories come before what is in them. -/
def Disk.changesSince (d before : Disk) : List (Location × Node) :=
  d.nodes.entries.filter fun e => before.nodes.get? e.1 ≠ some e.2

namespace Program

variable [Host]

/-- The paths that applying a response looks at: the response, the root, and
the paths of its edits as soon as the response can be read. -/
def applyFootprint (d : Disk) (response root : Text) (config : Except Failure RunConfig) :
    List Text :=
  let edits := do
    let text ← Task.readResponse d response (← config)
    (Block.edits text).mapError Failure.parse
  response :: root :: ((edits.map Task.editedPaths).toOption.getD []).map (Path.join root)

/-- The paths that a task looks at. -/
def taskFootprint (d : Disk) (task : Task) (config : Except Failure RunConfig) : List Text :=
  match task with
  | .apply response root _ => applyFootprint d response (root.getD []) config
  | .prompt files root _ => root.getD [] :: files.map (Path.join (root.getD []))
  | .settings _ _ => []

/-- **The paths that a run looks at**, as far as they can be told from what
is known of the disk. -/
def footprint (d : Disk) (home : Text) (args : List Text) : List Text :=
  match Arguments.readInvocation args with
  | .error _ => []
  | .ok invocation =>
    let directory := Settings.directoryOf home application
    let config := match Settings.openIn d home application with
      | (_, .ok (settings, _)) => configFor d invocation settings
      | (_, .error e) => .error (.disk e)
    Path.join directory Settings.fileName :: (invocation.config.getD [])
      :: taskFootprint d invocation.task config

end Program

end EditBlocks
