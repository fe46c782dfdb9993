import EditBlocks.Checkout
import EditBlocks.OrderedMap
import EditBlocks.Text.Newline
import EditBlocks.Value.Display

/-!
# Saved settings

The user's settings are kept in a file of their own, as a JSON object. Two
settings are always there, with a default where the file does not give them,
and come first (`Settings.defaults`). Every change is saved at once.

Nothing that goes wrong with the file ends a run. A file that cannot be read
is reported and leaves the settings in use as they are (`Settings.reload`),
and so is one that cannot be written, whose settings are in use all the same
(`Settings.save`). Such a file can hold the beginning of a text: the file is
emptied when it is opened, and pieces are written as they are made.

What was read or written is reported too, and showing it can go wrong as
well. By then the settings that were read are in use, and those that were
written are in the file.
-/

namespace EditBlocks

variable [Host]

/-- **The saved settings in use, and where they are kept.** -/
structure Settings where
  /-- The directory of the settings. -/
  directory : Text
  /-- The file of the settings. -/
  file : Text
  /-- The settings, in order. -/
  entries : OrderedMap Text Value

namespace Settings

/-- The settings that are always there. -/
def defaults : OrderedMap Text Value :=
  .ofList [("encoding", .text "utf-8"), ("log_level", .text "INFO")]

/-- The name of the file of settings. -/
def fileName : Text := "config.json"

/-- The settings as one value. -/
def asValue (entries : OrderedMap Text Value) : Value :=
  .mapping (entries.entries.map fun (k, v) => (.text k, v))

/-- The entries of a mapping whose keys are texts. -/
def textEntries (entries : List (Scalar × Value)) : List (Text × Value) :=
  entries.filterMap fun (k, v) => match k with
    | .text name => some (name, v)
    | _ => none

/-- **The settings that a JSON text gives**, or the message of what is wrong
with it. -/
def ofJson (t : Text) : Except Text (OrderedMap Text Value) :=
  match Json.Nesting.reading t with
  | some message => .error message
  | none =>
    match Json.read t with
    | .error stop => .error (stop.message t)
    | .ok (.mapping entries) => .ok (defaults.insertAll (textEntries entries))
    | .ok v => .error ("'" ++ v.kind ++ "' object is not a mapping")

/-- The settings that a file gives, or the message of what is wrong with
it. -/
def ofFile (d : Disk) (file : Text) : Except Text (OrderedMap Text Value) :=
  match d.readText file RunConfig.usualEncoding with
  | .error e => .error e.message
  | .ok t => ofJson (Text.normalizeNewlines t)

/-- **The settings read again**, if their file is there, and what is reported
of it. -/
def reload (s : Settings) (d : Disk) : Settings × List Record :=
  if d.isThere s.file then
    match ofFile d s.file with
    | .ok entries =>
      match Json.Nesting.showing (asValue entries) with
      | none => ({ s with entries }, [.debug ("Loaded config: " ++ (asValue entries).display)])
      | some message => ({ s with entries }, [.error ("Error loading config: " ++ message)])
    | .error message => (s, [.error ("Error loading config: " ++ message)])
  else (s, [])

/-- **What is written of a value**, and the message of what ended the writing
if something did. -/
def toJson (v : Value) : Text × Option Text :=
  match Json.Nesting.writing v with
  | some (part, message) => (part, some message)
  | none =>
    match Json.part? v with
    | some part => (part, some Json.tooLongMessage)
    | none => (Json.write v, none)

/-- **The settings saved**: the disk after that, and what is reported of
it. -/
def save (s : Settings) (d : Disk) : Disk × List Record :=
  let v := asValue s.entries
  let failed (message : Text) : List Record := [.error ("Error saving config: " ++ message)]
  let (t, stopped) := toJson v
  match d.writeText s.file RunConfig.usualEncoding t with
  | (d, some e) => (d, failed e.message)
  | (d, none) =>
    match stopped.or (Json.Nesting.showing v) with
    | some message => (d, failed message)
    | none => (d, [.debug ("Saved config: " ++ v.display)])

/-- The value of a setting, or a default. -/
def get (s : Settings) (key : Text) (default : Value) : Value := (s.entries.get? key).getD default

/-- **The settings with a value under a key**, saved. -/
def set (s : Settings) (d : Disk) (key : Text) (v : Value) : Settings × Disk × List Record :=
  let s := { s with entries := s.entries.insert key v }
  (s, s.save d)

/-- The directory of an application's settings. -/
def directoryOf (home application : Text) : Text :=
  if application = [] then home else Path.join home application

/-- **The settings of an application**, in its directory below the home of
settings, which is made if it is missing. -/
def openIn (d : Disk) (home application : Text) :
    Disk × Except DiskError (Settings × List Record) :=
  let directory := directoryOf home application
  match d.makeDirectories directory with
  | (d, some e) => (d, .error e)
  | (d, none) =>
    (d, .ok (reload ⟨directory, Path.join directory fileName, defaults⟩ d))

end Settings

end EditBlocks
