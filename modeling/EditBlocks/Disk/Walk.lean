import EditBlocks.Disk.Basic

/-!
# Following a path

How the system finds the place that a path stands for (`Disk.locate`). Names
are read from the left; a link on the way is replaced by the names of its
target, and so is one at the end where links are followed. At most forty
links are followed on one way. The last name may be of something that is not
there: that is where something can be created.

The walk goes from link to link. What is walked between two of them is a
`Stretch`, a recursion over the names alone, and following a path is a
recursion over the links that are left (`Disk.follow`). So what holds of ways
without links is shown by induction on names, and what holds of all ways by
induction on the number of links.

A path that is too long, or has too long a name, is refused before anything
is looked up, and so is the empty one.
-/

namespace EditBlocks.Disk

/-- How many bytes a text takes in UTF-8. -/
def byteLength : Text → Nat
  | [] => 0
  | c :: t => c.utf8Size + byteLength t

/-- The greatest length of a name. -/
def maxNameLength : Nat := 255

/-- The length that a path may not reach. -/
def pathLimit : Nat := 4096

/-- How many links are followed on one way. -/
def maxLinks : Nat := 40

/-- **Where a path leads.** -/
inductive Place
  /-- To something that is there. -/
  | present (place : Location)
  /-- To a name that is free in a directory. -/
  | absent (directory : Location) (name : Text)
deriving DecidableEq

/-- How far names can be read before a link has to be followed. -/
inductive Stretch
  /-- To the end. -/
  | ends (place : Place)
  /-- To a link in a directory, with the names after it. -/
  | link (directory : Location) (target : Text) (rest : List Text)
  /-- Not to the end. -/
  | refused (reason : Refusal)

/-- **Names read from a directory, up to the first link to follow.** -/
def stretch (d : Disk) (followLast : Bool) (place : Location) : List Text → Stretch
  | [] => .ends (.present place)
  | name :: rest =>
    if name = [] ∨ name = Path.here then stretch d followLast place rest
    else if name = Path.above then stretch d followLast place.dropLast rest
    else if maxNameLength < byteLength name then .refused .nameTooLong
    else
      match d.node? (place ++ [name]) with
      | none => if rest = [] then .ends (.absent place name) else .refused .noEntry
      | some .directory => stretch d followLast (place ++ [name]) rest
      | some (.file _) =>
        if rest = [] then .ends (.present (place ++ [name])) else .refused .notDirectory
      | some (.link target) =>
        if rest = [] ∧ followLast = false then .ends (.present (place ++ [name]))
        else .link place target rest

/-- Where reading a link's target starts. -/
def linkStart (directory : Location) (target : Text) : Location :=
  if Path.isAbsolute target then [] else directory

/-- **Names read from a directory**, with a number of links still to
follow. -/
def follow (d : Disk) (followLast : Bool) :
    Nat → Location → List Text → Except Refusal Place
  | links, place, names =>
    match stretch d followLast place names, links with
    | .ends place, _ => .ok place
    | .refused reason, _ => .error reason
    | .link _ _ _, 0 => .error .tooManyLinks
    | .link directory target rest, links + 1 =>
      follow d followLast links (linkStart directory target) (Path.names target ++ rest)

/-- The location that a path is read from. -/
def start (d : Disk) (path : Text) : Location :=
  if Path.isAbsolute path then [] else d.workingDir

/-- **Where a path leads**, with a link at its end followed or not. -/
def locate (d : Disk) (followLast : Bool) (path : Text) : Except DiskError Place :=
  if '\x00' ∈ path then .error .nullByte
  else if path = [] then .error (.refused .noEntry path)
  else if pathLimit ≤ byteLength path then .error (.refused .nameTooLong path)
  else (follow d followLast maxLinks (d.start path) (Path.names path)).mapError (.refused · path)

/-- What a path leads to, all links followed. -/
def lookUp? (d : Disk) (path : Text) : Option Node :=
  match d.locate true path with
  | .ok (.present place) => d.node? place
  | _ => none

/-- Whether a path leads to something. -/
def isThere (d : Disk) (path : Text) : Bool := (d.lookUp? path).isSome

/-- Whether a path leads to a file. -/
def isFile (d : Disk) (path : Text) : Bool :=
  match d.lookUp? path with
  | some (.file _) => true
  | _ => false

/-- Whether a path leads to a directory. -/
def isDirectory (d : Disk) (path : Text) : Bool := d.lookUp? path = some .directory

end EditBlocks.Disk
