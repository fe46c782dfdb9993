import EditBlocks.Disk.Nesting

/-!
# Reading and writing

A file is read whole and written whole. Writing creates the file if the
directory it belongs to is there, and empties it first if it is there itself,
so a file is written in two steps and can be left empty between them.

Directories are made one by one, from the highest that is missing
(`Disk.makeDirectories`). Which one that is is found on the way up: a
directory is made once the one above it has been, by a call inside the call
for it, as long as there is room for calls (`Disk.Nesting`). A path whose
names go up and down can have the same directory made on the way twice, so
one that turns out to be there is passed over.
-/

namespace EditBlocks.Disk

/-- **The bytes of the file at a path.** -/
def read (d : Disk) (path : Text) : Except DiskError (List UInt8) :=
  match d.locate true path with
  | .error e => .error e
  | .ok (.absent _ _) => .error (.refused .noEntry path)
  | .ok (.present place) =>
    match d.node? place with
    | some (.file bytes) => .ok bytes
    | some .directory => .error (.refused .isDirectory path)
    | _ => .error (.refused .noEntry path)

/-- **The disk with bytes written to the file at a path.** -/
def write (d : Disk) (path : Text) (bytes : List UInt8) : Except DiskError Disk :=
  match d.locate true path with
  | .error e => .error e
  | .ok (.absent directory name) => .ok (d.put (directory ++ [name]) (.file bytes))
  | .ok (.present place) =>
    match d.node? place with
    | some (.file _) => .ok (d.put place (.file bytes))
    | _ => .error (.refused .isDirectory path)

/-- **The disk with a directory made at a path.** Nothing may be there, not
even a link. -/
def makeDirectory (d : Disk) (path : Text) : Except DiskError Disk :=
  match d.locate false (Path.dropSlashes path) with
  | .error (.refused reason _) => .error (.refused reason path)
  | .error e => .error e
  | .ok (.present _) => .error (.refused .alreadyExists path)
  | .ok (.absent directory name) => .ok (d.put (directory ++ [name]) .directory)

/-- The two parts of a directory's path, slashes at its end aside. -/
def splitDirectory (path : Text) : Text × Text :=
  match Path.split path with
  | (head, []) => Path.split head
  | parts => parts

/-- Whether an error says that something is there already. -/
def saysExists : Option DiskError → Bool
  | some (.refused .alreadyExists _) => true
  | _ => false

/-- **The disk with a directory and those above it made**, as far as they are
missing, and the error if there is one. What was made before an error stays.
Each directory is made by a call of its own inside that of the one below it,
and the number is how many of these calls there is room for. -/
def makeDirectoriesFrom : Nat → Disk → Text → Disk × Option DiskError
  | 0, d, _ => (d, some .tooDeep)
  | room + 1, d, path =>
    let (head, name) := splitDirectory path
    let makeLast (d : Disk) : Disk × Option DiskError :=
      match d.makeDirectory path with
      | .ok made => (made, none)
      | .error .nullByte => (d, some .nullByte)
      | .error e => if d.isDirectory path then (d, none) else (d, some e)
    if head = [] ∨ name = [] ∨ d.isThere head then makeLast d
    else
      let (d, error) := makeDirectoriesFrom room d head
      if error.isSome && !saysExists error then (d, error)
      else if name = Path.here then (d, none)
      else makeLast d

/-- **The disk with a directory and those above it made.** -/
def makeDirectories [Nesting] (d : Disk) (path : Text) : Disk × Option DiskError :=
  makeDirectoriesFrom Nesting.directories d path

end EditBlocks.Disk
