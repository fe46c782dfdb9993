import EditBlocks.Host
import EditBlocks.Yaml.Document

/-!
# A host to run on

The host that the program is run on here, and that what is said of runs is
tried on (`Host.usual`). It has no codecs but those that are modelled, so any
other name is the name of no encoding. It knows the levels of records by
seven names, and takes a number for what it is. It reads configuration files
by `Yaml.readFile`.

Of a stack of a thousand calls a run has taken a few when it comes to a path,
so there is room for some less than a thousand links inside links and
directories above directories. Values can be nested to any depth.

No general statement is about this host. It is there for the runs that show
the conditions of such statements to be met, and for the program itself.
-/

namespace EditBlocks.Host

/-- The names of the levels with their numbers, from the least severe to the
most. -/
def levelNumbers : List (Text × Nat) :=
  [("TRACE", 5), ("DEBUG", 10), ("INFO", 20), ("SUCCESS", 25), ("WARNING", 30), ("ERROR", 40),
    ("CRITICAL", 50)]

/-- The number of a level by its name; case matters. -/
def levelNumber? (name : Text) : Option Nat :=
  (levelNumbers.find? fun e => e.1 = name).map Prod.snd

/-- **The number that a setting asks for.** The truth values count as one and
zero. -/
def severityIn (setting : Value) : Except LevelError Nat :=
  let ofInt (n : Int) : Except LevelError Nat :=
    if n < 0 then .error (.negative n) else .ok n.toNat
  match setting with
  | .text name =>
    match levelNumber? name with
    | some number => .ok number
    | none => .error (.unknown name)
  | .int n => ofInt n
  | .bool b => ofInt (if b then 1 else 0)
  | v => .error (.notALevel v.shortKind)

/-- **The host that the program is run on here.** -/
instance usual : Host where
  find name := .error (.unknown name)
  decode name _ := .error (.unknown name)
  encode name _ := .error (.unknown name)
  links := 992
  directories := 994
  maxLinks_lt_links := by decide
  directories_pos := by decide
  reading _ := none
  writing _ := none
  showing _ := none
  reading_ofTexts _ := rfl
  writing_ofTexts _ := rfl
  showing_ofTexts _ := rfl
  prefix_of_writing h := nomatch h
  read_of_writing h := nomatch h
  severity level := (levelNumber? level.name).getD 0
  threshold := severityIn
  isOk_threshold_info := by decide
  read := Yaml.readFile

end EditBlocks.Host
