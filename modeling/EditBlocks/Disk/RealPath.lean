import EditBlocks.Disk.Nesting

/-!
# Paths without links

The path that a path stands for when every link on it is replaced by what it
leads to (`Disk.realPath`). Nothing needs to be there: a name of nothing
stands for itself. Names are read from the left; the part read so far is a
`Trail`, a path without links and without detours.

Links can lead in circles. A link that is met again while its own target is
being read is left as it stands, and so is all that follows it
(`Resolution.stuck`). What is known of the links met so far is `Seen`, and it
is handed on from one name to the next, as a link that has been read once is
not read again.

A target is read by a call of its own. Which links are being read grows with
every such call, but for a trail above the top, which has no end of other
spellings; so it is the room for calls that the recursion goes by
(`Disk.readDeep`).
-/

namespace EditBlocks.Disk

/-- **The part of a path that has been read**: from the root, or from the
working directory and then so many directories up. -/
structure Trail where
  /-- Whether it starts at the root. -/
  absolute : Bool
  /-- How many directories it goes up at its beginning. -/
  ups : Nat
  /-- The names after that. -/
  names : List Text
deriving DecidableEq

namespace Trail

/-- The beginning of a path read from the root. -/
def root : Trail := ⟨true, 0, []⟩

/-- The beginning of a path read from the working directory. -/
def working : Trail := ⟨false, 0, []⟩

/-- One directory up. At the root there is none above. -/
def up (t : Trail) : Trail :=
  if t.names ≠ [] then { t with names := t.names.dropLast }
  else if t.absolute then t
  else { t with ups := t.ups + 1 }

/-- Down by one name. -/
def down (t : Trail) (name : Text) : Trail := { t with names := t.names ++ [name] }

/-- The path of a trail. -/
def toPath (t : Trail) : Text :=
  if t.absolute then Path.ofLocation t.names
  else Text.join "/" (List.replicate t.ups Path.above ++ t.names)

/-- The location of a trail. -/
def location (t : Trail) (workingDir : Location) : Location :=
  if t.absolute then t.names else workingDir.take (workingDir.length - t.ups) ++ t.names

end Trail

/-- The links met so far, each with the trail it leads to if its target has
been read. -/
abbrev Seen := List (Trail × Option Trail)

/-- **How reading a path's names ends.** -/
inductive Resolution
  /-- At a trail. -/
  | done (trail : Trail) (seen : Seen)
  /-- At a link that leads to itself, with the path that is left as it
  stands. -/
  | stuck (path : Text)
  /-- At a null character. -/
  | nullByte
  /-- In a target too far inside others. -/
  | tooDeep

/-- The path that begins where reading stopped. -/
def leave (path : Text) (rest : List Text) : Text := Path.join path (Text.join "/" rest)

/-- **Names read one after the other.** `descend` reads the names of a link's
target. -/
def readNames (d : Disk) (descend : Seen → Trail → List Text → Resolution) :
    Seen → Trail → List Text → Resolution
  | seen, trail, [] => .done trail seen
  | seen, trail, name :: rest =>
    if name = [] ∨ name = Path.here then readNames d descend seen trail rest
    else if name = Path.above then readNames d descend seen trail.up rest
    else if '\x00' ∈ name then .nullByte
    else
      let next := trail.down name
      match d.node? (next.location d.workingDir) with
      | some (.link target) =>
        match seen.find? fun e => e.1 = next with
        | some (_, some known) => readNames d descend seen known rest
        | some (_, none) => .stuck (leave next.toPath rest)
        | none =>
          let origin := if Path.isAbsolute target then Trail.root else trail
          match descend ((next, none) :: seen) origin (Path.names target) with
          | .done found seen => readNames d descend ((next, some found) :: seen) found rest
          | .stuck path => .stuck (leave path rest)
          | .nullByte => .nullByte
          | .tooDeep => .tooDeep
      | _ => readNames d descend seen next rest

/-- **Names read with links followed to a given depth.** -/
def readDeep (d : Disk) : Nat → Seen → Trail → List Text → Resolution
  | 0 => fun _ _ _ => .tooDeep
  | depth + 1 => readNames d (readDeep d depth)

variable [Nesting]

/-- **The path without links that a path stands for.** Where a link leads to
itself the path is left as it stands from there on, and only its detours are
taken out. -/
def realPath (d : Disk) (path : Text) : Except DiskError Text :=
  let start := if Path.isAbsolute path then Trail.root else Trail.working
  match readDeep d Nesting.links [] start (Path.names path) with
  | .done trail _ => .ok (Path.normalize (Path.join d.workingPath trail.toPath))
  | .stuck path => .ok (Path.normalize (Path.join d.workingPath path))
  | .nullByte => .error .nullByte
  | .tooDeep => .error .tooDeep

end EditBlocks.Disk
