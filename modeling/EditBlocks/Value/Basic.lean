import EditBlocks.Number.Binary64

/-!
# Data values

What a settings file or a configuration file holds: scalars, sequences, and
mappings from scalars to values. Mappings list their entries in order. Two
scalars can be one key of a mapping without being the same scalar: numbers
are compared by value, and the truth values count as one and zero.

A settings file holds no more than that. A configuration file can hold bytes,
days and points in time as well, and tuples and sets, which are made of
values as sequences are. They are told apart from sequences because messages
name the type of a value (`Value.kind`), and because a tuple can be a key
where a sequence cannot (`Value.unhashable?`).

What a run asks of a value is little: whether it counts as true
(`Value.isTrue`), which values it is made of (`Value.items?`), and what it is
called when it is not what it should be. So a value that holds itself need
not be had as a whole. It can be given as far down as a run looks at it.
-/

namespace EditBlocks

/-- A day of the calendar. -/
structure Date where
  /-- The year, from 1 to 9999. -/
  year : Nat
  /-- The month, from 1 to 12. -/
  month : Nat
  /-- The day of the month, from 1. -/
  day : Nat
deriving DecidableEq

/-- A point in time: a day, a time of day, and the difference to universal
time if it is known. -/
structure Moment where
  /-- The day. -/
  date : Date
  /-- The hour, below 24. -/
  hour : Nat
  /-- The minute, below 60. -/
  minute : Nat
  /-- The second, below 60. -/
  second : Nat
  /-- The millionths of the second. -/
  microsecond : Nat
  /-- The minutes ahead of universal time. -/
  offset : Option Int
deriving DecidableEq

/-- **A value without parts.** -/
inductive Scalar
  | null
  | bool (b : Bool)
  | int (n : Int)
  | float (x : Binary64)
  | text (t : Text)
  | bytes (b : List UInt8)
  | date (d : Date)
  | moment (m : Moment)
deriving DecidableEq

/-- **A data value.** -/
inductive Value
  /-- A value without parts. -/
  | scalar (s : Scalar)
  /-- Values in order. -/
  | sequence (items : List Value)
  /-- Values under scalars, in order. -/
  | mapping (entries : List (Scalar × Value))
  /-- Values in order that can no longer be changed. -/
  | tuple (items : List Value)
  /-- Values each of which is there once, in the order in which they are
  met. -/
  | set (items : List Value)

namespace Scalar

/-- The number that a scalar is compared as. The truth values count as one
and zero. -/
def number? : Scalar → Option (Int ⊕ Binary64)
  | bool b => some (.inl (if b then 1 else 0))
  | int n => some (.inl n)
  | float x => some (match x.toInt? with | some n => .inl n | none => .inr x)
  | _ => none

/-- **Whether two scalars are one key.** Numbers are by their value, other
scalars by themselves. -/
def sameKey (s s' : Scalar) : Bool :=
  match s.number?, s'.number? with
  | some (.inl n), some (.inl n') => n = n'
  | some (.inr x), some (.inr x') => x.same x'
  | none, none => s = s'
  | _, _ => false

/-- The word for a scalar's type. -/
def kind : Scalar → Text
  | null => "NoneType"
  | bool _ => "bool"
  | int _ => "int"
  | float _ => "float"
  | text _ => "str"
  | bytes _ => "bytes"
  | date _ => "datetime.date"
  | moment _ => "datetime.datetime"

end Scalar

namespace Value

/-- The value of a text. -/
@[match_pattern] abbrev text (t : Text) : Value := .scalar (.text t)

/-- The value of an integer. -/
@[match_pattern] abbrev int (n : Int) : Value := .scalar (.int n)

/-- A truth value. -/
@[match_pattern] abbrev bool (b : Bool) : Value := .scalar (.bool b)

/-- The value of a number. -/
@[match_pattern] abbrev float (x : Binary64) : Value := .scalar (.float x)

/-- The value that stands for none. -/
@[match_pattern] abbrev null : Value := .scalar .null

/-- The word for a value's type, as messages about a value use it. -/
def kind : Value → Text
  | scalar s => s.kind
  | sequence _ => "list"
  | mapping _ => "dict"
  | tuple _ => "tuple"
  | set _ => "set"

/-- The last part of the word for a value's type. -/
def shortKind (v : Value) : Text :=
  match v with
  | scalar (.date _) => "date"
  | scalar (.moment _) => "datetime"
  | v => v.kind

/-- **Whether a value counts as true.** Zero, the empty text, and what has no
parts do not, nor does the value that stands for none. -/
def isTrue : Value → Bool
  | scalar .null => false
  | scalar (.bool b) => b
  | scalar (.int n) => n ≠ 0
  | scalar (.float x) => !x.isZero
  | scalar (.text t) => t ≠ []
  | scalar (.bytes b) => b ≠ []
  | scalar _ => true
  | sequence items | tuple items | set items => !items.isEmpty
  | mapping entries => !entries.isEmpty

/-- An entry list with a value put under a key: in the key's place if one
that is the same key is there, at the end otherwise. The key that is there
stays. -/
def putKey (key : Scalar) (value : Value) : List (Scalar × Value) → List (Scalar × Value)
  | [] => [(key, value)]
  | (k, v) :: rest =>
    if k.sameKey key then (k, value) :: rest else (k, v) :: putKey key value rest

/-- The value under a key of an entry list. -/
def findKey? (key : Scalar) (entries : List (Scalar × Value)) : Option Value :=
  (entries.find? fun e => e.1.sameKey key).map Prod.snd

/-- **The values that a value is made of**, if it is made of any: the items
of a sequence, a tuple or a set, the keys of a mapping, the characters of a
text, the numbers of bytes. -/
def items? : Value → Option (List Value)
  | scalar (.text t) => some (t.map fun c => text [c])
  | scalar (.bytes b) => some (b.map fun byte => int byte.toNat)
  | sequence items | tuple items | set items => some items
  | mapping entries => some (entries.map fun e => scalar e.1)
  | scalar _ => none

mutual

/-- **Why a value cannot be a key**: the type of it that cannot, if there is
one. A tuple can be a key if what it is made of can. -/
def unhashable? : Value → Option Text
  | scalar _ => none
  | tuple items => unhashableIn? items
  | v => some v.kind

/-- The first type that cannot be a key, of some values. -/
def unhashableIn? : List Value → Option Text
  | [] => none
  | v :: rest => v.unhashable?.or (unhashableIn? rest)

end

end Value

end EditBlocks
