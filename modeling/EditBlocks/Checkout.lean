import EditBlocks.Disk.Access
import EditBlocks.Encoding.Basic
import EditBlocks.Failure
import EditBlocks.Host
import EditBlocks.RunConfig

/-!
# Snapshots and the disk

The files of a snapshot are read from the disk under a root
(`Snapshot.load`), and written back to it (`Snapshot.store`). Every path is
resolved before its file is opened, when it is read and again when it is
written. A path that leads to no file is left out of the snapshot, and its
file is made when it is written, with the directories above it.

Files are stored one after the other, in the order of their paths, and
nothing is taken back: what was written before a failure stays, and so do the
directories that were made. A file is emptied when it is opened for writing,
so it stays empty where its text cannot be encoded (`Disk.writeText`).
-/

namespace EditBlocks

variable [Host]

/-- An encoding error as a failure of the run. -/
def Failure.ofEncoding {α : Type} (result : Except EncodingError α) : Except Failure α :=
  result.mapError .encoding

namespace Disk

/-- **The text of the file at a path**, under the encoding of a setting. -/
def readText (d : Disk) (path : Text) (encoding : Value) : Except Failure Text := do
  let name ← Failure.ofEncoding (Encoding.nameIn encoding)
  let bytes ← (d.read path).mapError Failure.disk
  let e ← Failure.ofEncoding (Encoding.named name)
  Failure.ofEncoding (e.decode bytes)

/-- The bytes of a text, under the encoding of a name. -/
def bytesOf (name : Option Text) (t : Text) : Except Failure (List UInt8) := do
  let e ← Failure.ofEncoding (Encoding.named name)
  Failure.ofEncoding (e.encode t)

/-- **The disk with a text written to the file at a path**, and the failure
if there is one. -/
def writeText (d : Disk) (path : Text) (encoding : Value) (t : Text) : Disk × Option Failure :=
  match Encoding.nameIn encoding with
  | .error e => (d, some (.encoding e))
  | .ok name =>
    match d.write path [] with
    | .error e => (d, some (.disk e))
    | .ok emptied =>
      match bytesOf name t with
      | .error e => (emptied, some e)
      | .ok bytes =>
        match emptied.write path bytes with
        | .error e => (emptied, some (.disk e))
        | .ok written => (written, none)

end Disk

namespace Snapshot

/-- The files of some paths, put after those read before. Paths of nothing
are passed over. -/
def loadFiles (d : Disk) (root : Text) (config : RunConfig) :
    List Text → OrderedMap Text File → Except Failure (OrderedMap Text File)
  | [], files => .ok files
  | path :: rest, files => do
    let full ← (d.resolve root path config.exclude).mapError Failure.path
    if d.isFile full then
      let contents ← d.readText full config.encoding
      loadFiles d root config rest (files.insert path ⟨path, contents⟩)
    else loadFiles d root config rest files

/-- **The snapshot of some paths under a root.** -/
def load (d : Disk) (root : Text) (paths : List Text) (config : RunConfig) :
    Except Failure Snapshot := do
  let files ← loadFiles d root config paths .empty
  let root ← (d.realPathFor root).mapError Failure.path
  .ok ⟨files, none, root⟩

/-- The disk with one file of a snapshot written. -/
def storeFile (d : Disk) (root : Text) (s : Snapshot) (config : RunConfig) (path : Text) :
    Disk × Option Failure :=
  match d.resolve root path config.exclude with
  | .error e => (d, some (.path e))
  | .ok full =>
    match d.makeDirectories (Path.parent full) with
    | (d, some e) => (d, some (.disk e))
    | (d, none) => d.writeText full config.encoding (s.contents path)

/-- The disk with several files of a snapshot written, up to the first that
cannot be. -/
def storeFiles (root : Text) (s : Snapshot) (config : RunConfig) :
    Disk → List Text → Disk × Option Failure
  | d, [] => (d, none)
  | d, path :: rest =>
    match storeFile d root s config path with
    | (d, some e) => (d, some e)
    | (d, none) => storeFiles root s config d rest

/-- **The disk with all written that a snapshot changes**, and the paths of
it. What was written before a failure stays. -/
def store (d : Disk) (root : Text) (before after : Snapshot) (config : RunConfig) :
    Disk × Except Failure (List Text) :=
  let paths := before.changed after
  match storeFiles root after config d paths with
  | (d, some e) => (d, .error e)
  | (d, none) => (d, .ok paths)

end Snapshot

end EditBlocks
