import EditBlocks.Footprint
import EditBlocks.Host.Usual

/-!
# The command line

The program on the disk of the system. What a run looks at is read into a
`Disk`, the run is done on it, and what it changed is written back. The paths
of a response are known only once the response has been read, so reading
takes two rounds (`Program.footprint`). The run is one on the usual host
(`Host.usual`).

Nothing here decides what a run does. It is the layer between `Program.run`,
which is a function of a disk and of arguments, and the system: which files
are read into the disk, where the settings are at home, and how records,
output and exit code leave the program.
-/

namespace EditBlocks.CommandLine

/-- The location of an absolute path. -/
def locationOf (path : String) : Location := Path.walk [] (Path.names path.toList)

/-- What stands at a name in a directory, if anything does. A link is read as
leading to where the system says it ends; one that ends nowhere is read as
leading to itself. -/
def readNode? (directory : Location) (name : Text) : IO (Option Node) := do
  let entry : IO.FS.DirEntry :=
    { root := String.ofList (Path.ofLocation directory), fileName := String.ofList name }
  try
    match (← entry.path.symlinkMetadata).type with
    | .dir => return some .directory
    | .symlink =>
      let target ← try pure (← IO.FS.realPath entry.path).toString.toList catch _ => pure name
      return some (.link target)
    | _ => return some (.file (← IO.FS.readBinFile entry.path).toList)
  catch _ => return none

/-- The disk with what stands along names read from a location, and where the
names lead. Links are followed by `enter`. -/
def readAlong (enter : Disk → Location → Text → IO (Disk × Location)) :
    Disk → Location → List Text → IO (Disk × Location)
  | d, place, [] => return (d, place)
  | d, place, name :: rest => do
    let next := Path.push place name
    if next.length ≤ place.length then readAlong enter d next rest
    else
      match ← readNode? place name with
      | none => readAlong enter d next rest
      | some (.link target) =>
        let (d, place) ← enter (d.put next (.link target)) place target
        readAlong enter d place rest
      | some node => readAlong enter (d.put next node) next rest

/-- The disk with what stands along a path read from a directory, and where
it leads. The target of a link is read as well, but no link inside a
target. -/
def readPath (d : Disk) (path : Text) : IO (Disk × Location) :=
  let start (place : Location) (path : Text) : Location :=
    if Path.isAbsolute path then [] else place
  let stay (d : Disk) (place : Location) (name : Text) : IO (Disk × Location) :=
    return (d, place ++ [name])
  let enter (d : Disk) (place : Location) (target : Text) : IO (Disk × Location) :=
    readAlong stay d (start place target) (Path.names target)
  readAlong enter d (start d.workingDir path) (Path.names path)

/-- The disk with all that paths lead along. -/
def readPaths (d : Disk) (paths : List Text) : IO Disk :=
  paths.foldlM (fun d path => return (← readPath d path).1) d

/-- Writes a change to the disk of the system. -/
def writeChange : Location × Node → IO Unit
  | (place, .directory) => IO.FS.createDir (String.ofList (Path.ofLocation place))
  | (place, .file bytes) =>
    IO.FS.writeBinFile (String.ofList (Path.ofLocation place)) ⟨bytes.toArray⟩
  | (_, .link _) => return ()

/-- The home of settings. -/
def settingsHome : IO Text := do
  match ← IO.getEnv "XDG_CONFIG_HOME" with
  | some home => return home.toList
  | none => return Path.join (((← IO.getEnv "HOME").getD "/").toList) ".config"

/-- A record as a line. -/
def recordLine (r : Record) : String := String.ofList (r.level.name ++ ": " ++ r.message)

/-- **A run with arguments** on the disk of the system, and its exit code. -/
def run (args : List Text) : IO UInt32 := do
  let home ← settingsHome
  let bare : Disk := { nodes := .empty, workingDir := locationOf (← IO.currentDir).toString }
  let start ← readPaths bare [bare.workingPath, home]
  let known ← readPaths start (Program.footprint start home args)
  let known ← readPaths known (Program.footprint known home args)
  let r := Program.run known home args
  (r.disk.changesSince known).forM writeChange
  IO.print (String.ofList r.printed)
  IO.eprint (String.ofList r.complaint)
  r.log.forM fun record => IO.eprintln (recordLine record)
  match r.result with
  | .ok code => return UInt32.ofNat code
  | .error e =>
    IO.eprintln (String.ofList e.message)
    return 1

end EditBlocks.CommandLine

/-- The program. -/
def main (args : List String) : IO UInt32 := EditBlocks.CommandLine.run (args.map String.toList)
