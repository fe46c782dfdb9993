import EditBlocks.OrderedMap
import EditBlocks.Path
import EditBlocks.Text.Quoted

/-!
# A disk

A disk is a tree of files, directories and symbolic links, kept as a map from
locations to what stands there, and the directory that relative paths are
read from. The root is always a directory. An operation on a disk gives the
disk after it, or the reason why there is none.

A disk is any map: nothing forces what stands above a file to be a directory.
Where that matters it is asked for (`Disk.IsTree`), and it is kept by
everything that a run does.

What an operation is refused for is a `DiskError`, which is told in the words
of the system, with its number and the path. Two of them come from elsewhere:
a null character in a path is found before the system is asked, and room for
calls is not the system's to give.
-/

namespace EditBlocks

/-- **What stands at a location.** -/
inductive Node
  /-- A file and its bytes. -/
  | file (bytes : List UInt8)
  /-- A directory. -/
  | directory
  /-- A symbolic link and the path it stands for. -/
  | link (target : Text)
deriving DecidableEq

/-- **A disk.** -/
structure Disk where
  /-- What stands where, the root aside. -/
  nodes : OrderedMap Location Node
  /-- The directory that relative paths are read from. -/
  workingDir : Location

/-- Why the system refuses an operation. -/
inductive Refusal
  | noEntry
  | alreadyExists
  | notDirectory
  | isDirectory
  | nameTooLong
  | tooManyLinks
deriving DecidableEq

namespace Refusal

/-- The number of a refusal. -/
def code : Refusal → Nat
  | noEntry => 2
  | alreadyExists => 17
  | notDirectory => 20
  | isDirectory => 21
  | nameTooLong => 36
  | tooManyLinks => 40

/-- The words for a refusal. -/
def description : Refusal → Text
  | noEntry => "No such file or directory"
  | alreadyExists => "File exists"
  | notDirectory => "Not a directory"
  | isDirectory => "Is a directory"
  | nameTooLong => "File name too long"
  | tooManyLinks => "Too many levels of symbolic links"

end Refusal

/-- **Why an operation on a path fails.** -/
inductive DiskError
  /-- The system refuses it. -/
  | refused (reason : Refusal) (path : Text)
  /-- The path holds a null character, which no path can. -/
  | nullByte
  /-- It takes more calls inside calls than there is room for. -/
  | tooDeep
deriving DecidableEq

/-- The message of a failed operation. -/
def DiskError.message : DiskError → Text
  | refused reason path =>
    "[Errno " ++ Text.ofNat reason.code ++ "] " ++ reason.description ++ ": " ++ path.quoted
  | nullByte => "embedded null byte"
  | tooDeep => "maximum recursion depth exceeded"

namespace Disk

/-- What stands at a location, if anything does. -/
def node? (d : Disk) (place : Location) : Option Node :=
  if place = [] then some .directory else d.nodes.get? place

/-- The disk with something put at a location. -/
def put (d : Disk) (place : Location) (node : Node) : Disk :=
  { d with nodes := d.nodes.insert place node }

/-- The path of the working directory. -/
def workingPath (d : Disk) : Text := Path.ofLocation d.workingDir

/-- What stands where after something was put at a location. -/
theorem node?_put (d : Disk) {place : Location} (node : Node) (other : Location)
    (h : place ≠ []) :
    (d.put place node).node? other = if other = place then some node else d.node? other := by
  by_cases ho : other = []
  · subst ho
    simp [node?, Ne.symm h]
  · simp [node?, put, ho]

end Disk

end EditBlocks
