import EditBlocks.Text.Basic

/-!
# Paths

A path is a text whose names are separated by slashes. Reading its names one
after the other on a stack gives the place it stands for, as long as no name
on the way is a link (`Path.walk`): empty names and `.` stay where they are,
`..` goes up by one and stays at the root, any other name goes down.

A **location** is the list of names from the root down to a place. A path can
be written in many ways and a location in one, so places are compared as
locations. `Path.normalize` is the path of the location that a path stands
for without links, and `Path.ofLocation` writes a location as a path.

The rest takes paths apart as texts: the part up to the last slash and the
part after it, and the names that two paths begin with in common. These do
not look at any disk.
-/

namespace EditBlocks

/-- A place in the tree of files: the names from the root down. -/
abbrev Location := List Text

namespace Path

/-- The name of the directory itself. -/
def here : Text := "."

/-- The name of the directory above. -/
def above : Text := ".."

/-- The names of a path, between its slashes. -/
def names (path : Text) : List Text := Text.splitOn '/' path

/-- Whether a path starts at the root. -/
def isAbsolute (path : Text) : Bool := path.head? = some '/'

/-- **A path read from a directory's path**: the second after the first,
unless the second starts at the root. -/
def join (directory path : Text) : Text :=
  if isAbsolute path then path
  else if directory = [] ∨ directory.getLast? = some '/' then directory ++ path
  else directory ++ '/' :: path

/-- One name read on a stack of names. -/
def push (stack : Location) (name : Text) : Location :=
  if name = [] ∨ name = here then stack
  else if name = above then stack.dropLast
  else stack ++ [name]

/-- **Names read on a stack**, one after the other. -/
def walk (stack : Location) (names : List Text) : Location := names.foldl push stack

/-- The path of a location. -/
def ofLocation (place : Location) : Text := '/' :: Text.join "/" place

/-- **The simplest path with the same names on the stack.** Exactly two
slashes at the beginning are kept, as such a path can have a meaning of its
own; three and more are one. Nothing is asked of the names: what the system
refuses in a name, a null character among them, stays where it is. -/
def normalize (path : Text) : Text :=
  let place := walk [] (names path)
  if Text.startsWith path "//" && !Text.startsWith path "///" then '/' :: ofLocation place
  else ofLocation place

/-- The names that count for comparing paths. -/
def properNames (path : Text) : List Text := (names path).filter fun n => n ≠ [] ∧ n ≠ here

/-- The longest common beginning of two lists. -/
def commonStart : List Text → List Text → List Text
  | a :: as, b :: bs => if a = b then a :: commonStart as bs else []
  | _, _ => []

/-- **The path of the deepest directory above two absolute paths.** -/
def common (path other : Text) : Text :=
  ofLocation (commonStart (properNames path) (properNames other))

/-- A path without the slashes at its end. A path of slashes only is left as
it is. -/
def dropSlashes (path : Text) : Text :=
  if path.all (· = '/') then path else (path.reverse.dropWhile (· = '/')).reverse

/-- **The two parts of a path**: all before the last slash, without slashes
at its end, and the name after it. -/
def split (path : Text) : Text × Text :=
  let name := (path.reverse.takeWhile (· ≠ '/')).reverse
  (dropSlashes (path.take (path.length - name.length)), name)

/-- The path of the directory that a path's last name is in. -/
def parent (path : Text) : Text := (split path).1

@[simp] theorem walk_nil (stack : Location) : walk stack [] = stack := rfl

@[simp] theorem walk_cons (stack : Location) (name : Text) (rest : List Text) :
    walk stack (name :: rest) = walk (push stack name) rest := rfl

theorem walk_append (stack : Location) (first second : List Text) :
    walk stack (first ++ second) = walk (walk stack first) second :=
  List.foldl_append

end Path

end EditBlocks
