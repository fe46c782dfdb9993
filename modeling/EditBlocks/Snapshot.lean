import EditBlocks.OrderedMap
import EditBlocks.Text.Basic

/-!
# Snapshots

A set of files at a point in time, with the commit and the directory they
belong to. Files stand under keys, which as a rule are their paths. A
snapshot is never changed: `Snapshot.update` gives a new one, in which the
updated files come under their paths.

A key need not be the path of its file, since a snapshot can be put together
by hand. Texts are looked up by key, and a file that is not there has the
empty text; whether it is there is asked separately (`Snapshot.contains`).

`Snapshot.changed` lists what differs from one snapshot to another, by the
texts alone. `Snapshot.same` is the comparison that disregards the order of
files and nothing else.
-/

namespace EditBlocks

/-- **A file of a snapshot.** -/
structure File where
  /-- The path of the file. -/
  path : Text
  /-- The text it holds. -/
  contents : Text
deriving DecidableEq

/-- **A point-in-time view of a set of files.** -/
structure Snapshot where
  /-- The files under their keys, in order. -/
  files : OrderedMap Text File
  /-- The commit that the files belong to, if it is known. -/
  commit : Option Text
  /-- The directory that the paths are relative to. -/
  root : Text

namespace Snapshot

/-- Whether a snapshot has a file under a key. -/
def contains (s : Snapshot) (path : Text) : Bool := s.files.contains path

/-- The text of the file under a key; empty if there is none. -/
def contents (s : Snapshot) (path : Text) : Text :=
  match s.files.get? path with
  | some file => file.contents
  | none => []

/-- **The snapshot with new contents at a path.** -/
def update (s : Snapshot) (path contents : Text) : Snapshot :=
  { s with files := s.files.insert path ⟨path, contents⟩ }

/-- The snapshot with several updates, one after the other. -/
def updateAll (s : Snapshot) (updates : List (Text × Text)) : Snapshot :=
  updates.foldl (fun s u => s.update u.1 u.2) s

/-- **The keys at which a file is new or holds another text** than before, in
the order of the later snapshot. -/
def changed (before after : Snapshot) : List Text :=
  (after.files.entries.filter fun e =>
    match before.files.get? e.1 with
    | none => true
    | some file => file.contents ≠ e.2.contents).map Prod.fst

/-- **Whether two snapshots are the same**, the order of their files aside. -/
def same (s s' : Snapshot) : Bool :=
  s.files.sameEntries s'.files && s.commit = s'.commit && s.root = s'.root

/-- Reading after an update. -/
@[simp] theorem contents_update (s : Snapshot) (path contents p : Text) :
    (s.update path contents).contents p = if p = path then contents else s.contents p := by
  by_cases h : p = path <;> simp [Snapshot.contents, update, h]

end Snapshot

end EditBlocks
