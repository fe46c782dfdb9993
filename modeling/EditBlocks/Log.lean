import EditBlocks.Value.Basic

/-!
# Log records

What the program reports while it works: a record has a level and a message.
The levels that the program uses are three (`Level`). A threshold lets
through the records that are at or above it (`Record.atLeast`).

Records are kept and shown by a library of its own, which orders the levels
by numbers and knows more of them than the program does. What the program
relies on is given from outside (`Levels`): the number of each of its levels,
and the number that a setting asks for, or why it asks for none. A setting
can name a level or be a number itself. Nothing more is asked of the library
than that it knows the level which is used when none is set, `INFO`.
-/

namespace EditBlocks

/-- **The levels of the records that the program makes.** -/
inductive Level
  /-- For those who look for a fault. -/
  | debug
  /-- Of an ordinary event. -/
  | info
  /-- Of a failure. -/
  | error
deriving DecidableEq

/-- The name of a level, in capitals. -/
def Level.name : Level → Text
  | debug => "DEBUG"
  | info => "INFO"
  | error => "ERROR"

/-- **Why a value is no level of records.** -/
inductive LevelError
  /-- There is no level of that name. -/
  | unknown (name : Text)
  /-- The value is neither a name nor a number. -/
  | notALevel (kind : Text)
  /-- The number is negative. -/
  | negative (n : Int)
deriving DecidableEq

/-- The message of a value that is no level. -/
def LevelError.message : LevelError → Text
  | unknown name => "Level '" ++ name ++ "' does not exist"
  | notALevel kind => "Invalid level, it should be an integer or a string, not: '" ++ kind ++ "'"
  | negative n =>
    "Invalid level value, it should be a positive integer, not: " ++ Text.ofInt n

/-- **The levels as the library knows them** that keeps the records. -/
class Levels where
  /-- The number that orders a level among the others. -/
  severity : Level → Nat
  /-- The number that a setting asks for. -/
  threshold : Value → Except LevelError Nat
  /-- The level is known from which on records are shown when none is set. -/
  isOk_threshold_info : (threshold (.text "INFO")).isOk = true

/-- **A log record.** -/
structure Record where
  /-- How severe the report is. -/
  level : Level
  /-- What is reported. -/
  message : Text
deriving DecidableEq

namespace Record

/-- A record for those who look for a fault. -/
def debug (message : Text) : Record := ⟨.debug, message⟩

/-- A record of an ordinary event. -/
def info (message : Text) : Record := ⟨.info, message⟩

/-- A record of a failure. -/
def error (message : Text) : Record := ⟨.error, message⟩

/-- **The records of a severity or a greater one.** -/
def atLeast [Levels] (severity : Nat) (records : List Record) : List Record :=
  records.filter fun r => severity ≤ Levels.severity r.level

end Record

end EditBlocks
