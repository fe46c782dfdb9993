import EditBlocks.Checkout
import EditBlocks.OrderedMap

/-!
# The configuration of a run

The saved settings are taken as they are, and a configuration file in YAML,
if one is given, is put over them (`RunConfig.load`). The file holds a
mapping as a rule, and its entries take the place of the settings of the same
names. A list of pairs does as well. What does not count as true, an empty
file among it, changes nothing.

Four settings make a configuration, each with a default, and of the values
that are given for them little is asked. The patterns that exclude paths must
be items of some kind, which the characters of a text are too, and whether
there is to be a dry run is whether the value counts as true. The encoding
and the level of records are kept as they are given. Whether they make sense
shows when they are used.

What the file says is found out by the reader of the host (`Yaml.Reader`),
which is given the bytes and answers with a value or with the reason why
there is none. Here only that value is looked at.
-/

namespace EditBlocks

/-- **The key and the value of an item** that should be a pair. -/
def pairOf (index : Nat) (item : Value) : Except ConfigError (Value × Value) :=
  match item.items? with
  | none => .error (.noParts index)
  | some [key, v] =>
    match key.unhashable? with
    | some kind => .error (.unhashable kind)
    | none => .ok (key, v)
  | some parts => .error (.notAPair index parts.length)

/-- The entries with a value put under a key. No setting is found under a key
that is a tuple, so nothing is kept of it. -/
def putUnder (key v : Value) (entries : List (Scalar × Value)) : List (Scalar × Value) :=
  match key with
  | .scalar name => Value.putKey name v entries
  | _ => entries

/-- The entries with items put over them, each of which should be a pair; the
number is that of the first. -/
def putPairs (index : Nat) (entries : List (Scalar × Value)) :
    List Value → Except ConfigError (List (Scalar × Value))
  | [] => .ok entries
  | item :: rest => do
    let (key, v) ← pairOf index item
    putPairs (index + 1) (putUnder key v entries) rest

/-- **The entries with a value put over them.** What does not count as true
changes nothing. -/
def putOver (entries : List (Scalar × Value)) (v : Value) :
    Except ConfigError (List (Scalar × Value)) :=
  if !v.isTrue then .ok entries
  else match v with
    | .mapping more => .ok (more.foldl (fun entries e => Value.putKey e.1 e.2 entries) entries)
    | v =>
      match v.items? with
      | some items => putPairs 0 entries items
      | none => .error (.notIterable v.kind)

namespace RunConfig

/-- The value of a setting, or what stands for it. -/
def setting (entries : List (Scalar × Value)) (name : Text) (default : Value) : Value :=
  (Value.findKey? (.text name) entries).getD default

/-- **The configuration that entries make.** -/
def ofEntries (entries : List (Scalar × Value)) : Except ConfigError RunConfig :=
  let exclude := setting entries "exclude" (.sequence [])
  match exclude.items? with
  | none => .error (.notIterable exclude.kind)
  | some patterns =>
    .ok ⟨setting entries "encoding" usualEncoding, setting entries "log_level" usualLevel,
      (setting entries "dry_run" (.bool false)).isTrue, patterns⟩

variable [Host]

/-- The value of a configuration file. -/
def readFile (d : Disk) (path : Text) : Except Failure Value := do
  let bytes ← (d.read path).mapError Failure.disk
  (Yaml.Reader.read bytes).mapError fun e => Failure.config (.yaml e)

/-- **The configuration of a run**: saved settings, and over them the file at
a path if one is given. -/
def load (d : Disk) (path : Option Text) (settings : List (Scalar × Value)) :
    Except Failure RunConfig := do
  let entries ← match path with
    | none | some [] => .ok settings
    | some path => do
      let v ← readFile d path
      (putOver settings v).mapError Failure.config
  (ofEntries entries).mapError Failure.config

end RunConfig

end EditBlocks
