import EditBlocks.Json.Error
import EditBlocks.Number.Reader
import EditBlocks.Text.Quoted
import EditBlocks.Value.Basic

/-!
# What plain scalars stand for

A scalar that is written without quotes is read as a truth value, a number, a
point in time or nothing at all where it looks like one, and as a text
otherwise. `plainTag` says what it looks like, and `Tag.read` what it stands
for.

Not everything that looks like a number or a date is one: a day that no month
has, or a base without digits. Such a scalar is a `ScalarError`.

The two are apart because a scalar can also be given a kind by hand, and then
what it looks like does not matter and it must still be read.

The patterns are those of the older version of the language, in which many
words are truth values and a colon makes a number of sixties. A text that
must not be taken for one of these has to be quoted.
-/

namespace EditBlocks.Yaml

/-- **The kind of a node.** -/
inductive Tag
  | null
  | bool
  | int
  | float
  | timestamp
  | text
  | sequence
  | mapping
  /-- The key under which entries are taken over from other mappings. -/
  | merge
  /-- The key of a value's usual form. -/
  | usualValue
  /-- A kind that is not known. -/
  | unknown
deriving DecidableEq

/-! ## What a scalar looks like

The conditions are those of the patterns that tell the kinds apart, each
written as a test of the whole text. The first that holds settles the kind.
-/

/-- The words for nothing. -/
def nullWords : List Text := ["~", "null", "Null", "NULL", ""]

/-- The words for true. -/
def trueWords : List Text := ["yes", "Yes", "YES", "true", "True", "TRUE", "on", "On", "ON"]

/-- The words for false. -/
def falseWords : List Text := ["no", "No", "NO", "false", "False", "FALSE", "off", "Off", "OFF"]

/-- A text without the sign it may begin with. -/
def dropSign : Text → Text
  | '+' :: t => t
  | '-' :: t => t
  | t => t

/-- Whether a character is a digit, or the sign that groups digits. -/
def isDigitOrGroup (c : Char) : Bool := c.isDigit || c = '_'

/-- Whether a text is digits, the first of them a digit proper. -/
def isGrouped : Text → Bool
  | [] => false
  | c :: t => c.isDigit && t.all isDigitOrGroup

/-- Whether a text is a number below sixty, with one digit or two. -/
def isSixtieth : Text → Bool
  | [c] => c.isDigit
  | [a, b] => '0' ≤ a && a ≤ '5' && b.isDigit
  | _ => false

/-- Whether a text is an integer: in one of four bases, or in sixties. -/
def looksLikeInt (t : Text) : Bool :=
  match dropSign t with
  | '0' :: 'b' :: digits => digits ≠ [] && digits.all fun c => c = '0' || c = '1' || c = '_'
  | '0' :: 'x' :: digits => digits ≠ [] && digits.all fun c => (hexDigit? c).isSome || c = '_'
  | '0' :: digits => digits.all fun c => ('0' ≤ c && c ≤ '7') || c = '_'
  | body =>
    match Text.splitOn ':' body with
    | first :: sixtieths => isGrouped first && sixtieths.all isSixtieth
    | [] => false

/-- Whether a text is the exponent of a number, or empty. -/
def isExponent : Text → Bool
  | [] => true
  | e :: sign :: digits =>
    (e = 'e' || e = 'E') && (sign = '+' || sign = '-') && digits ≠ [] && digits.all Char.isDigit
  | _ => false

/-- The words for an infinite number, after its sign. -/
def infiniteWords : List Text := [".inf", ".Inf", ".INF"]

/-- The words for what is not a number. -/
def nanWords : List Text := [".nan", ".NaN", ".NAN"]

/-- Whether a text is a number with a decimal point. -/
def looksLikeFloat (t : Text) : Bool :=
  let body := dropSign t
  if t ∈ nanWords || body ∈ infiniteWords then true
  else
    let whole := body.takeWhile (· ≠ '.')
    match body.dropWhile (· ≠ '.') with
    | [] => false
    | _ :: decimals =>
      let fraction := decimals.takeWhile isDigitOrGroup
      let exponent := decimals.dropWhile isDigitOrGroup
      match Text.splitOn ':' whole with
      | [[]] => t = body && isGrouped fraction && isExponent exponent
      | [first] => isGrouped first && isExponent exponent
      | first :: sixtieths => isGrouped first && sixtieths.all isSixtieth && exponent = []
      | [] => false

/-- **The parts of a point in time** as they are written. -/
structure TimeText where
  /-- The year. -/
  year : Text
  /-- The month. -/
  month : Text
  /-- The day. -/
  day : Text
  /-- The hour, the minute, the second and its fraction, if there is a time
  of day. -/
  clock : Option (Text × Text × Text × Text)
  /-- The sign, the hours and the minutes of the difference to universal
  time. The sign is a letter where there is none. -/
  zone : Option (Char × Text × Text)

/-- So many digits at the beginning, and what follows them. -/
def digitsUpTo (least most : Nat) (t : Text) : Option (Text × Text) :=
  let digits := (t.take most).takeWhile Char.isDigit
  if digits.length < least then none else some (digits, t.drop digits.length)

/-- The rest after a character. -/
def after? (c : Char) : Text → Option Text
  | [] => none
  | d :: t => if d = c then some t else none

/-- The difference to universal time at the end of a point in time. -/
def readZone (t : Text) : Option (Option (Char × Text × Text)) :=
  match t.dropWhile fun c => c = ' ' || c = '\t' with
  | [] => if t = [] then some none else none
  | ['Z'] => some (some ('Z', [], []))
  | sign :: rest =>
    if sign = '+' || sign = '-' then do
      let (hours, rest) ← digitsUpTo 1 2 rest
      if rest = [] then some (some (sign, hours, []))
      else
        let rest ← after? ':' rest
        let (minutes, rest) ← digitsUpTo 2 2 rest
        if rest = [] then some (some (sign, hours, minutes)) else none
    else none

/-- The parts of a point in time. -/
def readTime (t : Text) : Option TimeText := do
  let (year, rest) ← digitsUpTo 4 4 t
  let rest ← after? '-' rest
  let (month, rest) ← digitsUpTo 1 2 rest
  let rest ← after? '-' rest
  let (day, rest) ← digitsUpTo 1 2 rest
  match rest with
  | [] => some ⟨year, month, day, none, none⟩
  | c :: _ => do
    let rest ←
      if c = 'T' || c = 't' then some (rest.drop 1)
      else if c = ' ' || c = '\t' then some (rest.dropWhile fun c => c = ' ' || c = '\t')
      else none
    let (hour, rest) ← digitsUpTo 1 2 rest
    let rest ← after? ':' rest
    let (minute, rest) ← digitsUpTo 2 2 rest
    let rest ← after? ':' rest
    let (second, rest) ← digitsUpTo 2 2 rest
    let (fraction, rest) := match rest with
      | '.' :: rest => (rest.takeWhile Char.isDigit, rest.dropWhile Char.isDigit)
      | rest => ([], rest)
    let zone ← readZone rest
    some ⟨year, month, day, some (hour, minute, second, fraction), zone⟩

/-- Whether a text looks like a point in time. A day alone needs two digits
for month and day. -/
def looksLikeTime (t : Text) : Bool :=
  match readTime t with
  | some ⟨_, month, day, none, _⟩ => month.length = 2 && day.length = 2
  | some _ => true
  | none => false

/-- **What a plain scalar looks like.** -/
def plainTag (t : Text) : Tag :=
  if t ∈ trueWords || t ∈ falseWords then .bool
  else if looksLikeFloat t then .float
  else if looksLikeInt t then .int
  else if t = ("<<" : Text) then .merge
  else if t ∈ nullWords then .null
  else if looksLikeTime t then .timestamp
  else if t = ("=" : Text) then .usualValue
  else .text

/-! ## What it stands for

Underscores are left out of numbers. A number with colons is one in sixties,
digit by digit. -/

/-- The parts of a point in time that can be out of range. -/
inductive TimePart
  | year (n : Nat)
  | month
  | day
  | hour
  | minute
  | second
  /-- The minutes ahead of universal time. -/
  | offset (minutes : Int)
deriving DecidableEq

/-- **Why a scalar stands for nothing.** -/
inductive ScalarError
  /-- These are not the digits of an integer. -/
  | notAnInteger (base : Nat) (t : Text)
  /-- An integer of more digits than are admitted. -/
  | tooManyDigits (count : Nat)
  /-- This is not a number. -/
  | notANumber (t : Text)
  /-- There is nothing where an integer should be. -/
  | empty
  /-- This is not a word for a truth value. -/
  | notATruth (t : Text)
  /-- This is not a point in time. -/
  | notATime
  /-- There is no such point in time. -/
  | outOfRange (part : TimePart)
deriving DecidableEq

/-- The days and seconds of an offset that is out of range. -/
def offsetText (minutes : Int) : Text :=
  let days := minutes / 1440
  let seconds := minutes % 1440 * 60
  let dayPart : Text := "days=" ++ Text.ofInt days
  let secondPart : Text := if seconds = 0 then [] else ", seconds=" ++ Text.ofInt seconds
  "datetime.timedelta(" ++ dayPart ++ secondPart ++ ")"

/-- The words for a part that is out of range. -/
def TimePart.message : TimePart → Text
  | year n => "year " ++ Text.ofNat n ++ " is out of range"
  | month => "month must be in 1..12"
  | day => "day is out of range for month"
  | hour => "hour must be in 0..23"
  | minute => "minute must be in 0..59"
  | second => "second must be in 0..59"
  | offset minutes =>
    "offset must be a timedelta strictly between -timedelta(hours=24) and timedelta(hours=24), not "
      ++ offsetText minutes ++ "."

/-- The message of a scalar that stands for nothing. -/
def ScalarError.message : ScalarError → Text
  | notAnInteger base t =>
    "invalid literal for int() with base " ++ Text.ofNat base ++ ": " ++ t.quoted
  | tooManyDigits count => (Json.Problem.tooManyDigits count).description
  | notANumber t => "could not convert string to float: " ++ t.quoted
  | empty => "string index out of range"
  | notATruth t => t.quoted
  | notATime => "'NoneType' object has no attribute 'groupdict'"
  | outOfRange part => part.message

/-- The integer of a text in a base, or the reason why there is none. How
many digits there may be is bounded in base ten, as it is in JSON. -/
def integerIn (base : Nat) (t : Text) : Except ScalarError Int :=
  if base = 10 ∧ Json.maxDigits < t.length then .error (.tooManyDigits t.length)
  else
    match Number.integer? base t with
    | some n => .ok n
    | none => .error (.notAnInteger base t)

/-- The number of a row of sixties, the greatest first. -/
def inSixties (parts : List Int) : Int := parts.foldl (fun n part => n * 60 + part) 0

/-- The sign and the rest of a number. -/
def signOf : Text → Int × Text
  | '-' :: t => (-1, t)
  | '+' :: t => (1, t)
  | t => (1, t)

/-- A text without the signs that group digits. -/
def ungrouped (t : Text) : Text := t.filter (· ≠ '_')

/-- **The integer of a text.** -/
def readInt (t : Text) : Except ScalarError Int :=
  if ungrouped t = [] then .error .empty
  else
    let (sign, body) := signOf (ungrouped t)
    let size : Except ScalarError Int :=
      match body with
      | [] => .error .empty
      | ['0'] => .ok 0
      | '0' :: 'b' :: digits => integerIn 2 digits
      | '0' :: 'x' :: digits => integerIn 16 digits
      | '0' :: _ => integerIn 8 body
      | body =>
        if ':' ∈ body then ((Text.splitOn ':' body).mapM (integerIn 10)).map inSixties
        else integerIn 10 body
    size.map (sign * ·)

/-- The number of a text, or the reason why there is none. -/
def readDecimal (t : Text) : Except ScalarError Binary64 :=
  match Number.number? t with
  | some x => .ok x
  | none => .error (.notANumber t)

/-- The number of a row of sixties, summed from the least, each part
rounded. -/
def sumSixties : (base : Int) → List Binary64 → Binary64 → Binary64
  | _, [], sum => sum
  | base, part :: rest, sum =>
    sumSixties (base * 60) rest (sum.add (part.mul (.ofInt base)))

/-- **The number of a text.** -/
def readFloat (t : Text) : Except ScalarError Binary64 :=
  let plain := (ungrouped t).map Char.toLower
  if plain = [] then .error .empty
  else
    let (sign, body) := signOf plain
    let size : Except ScalarError Binary64 :=
      if body = (".inf" : Text) then .ok (.infinite false)
      else if body = (".nan" : Text) then .ok .nan
      else if ':' ∈ body then do
        let parts ← (Text.splitOn ':' body).mapM readDecimal
        .ok (sumSixties 1 parts.reverse (.zero false))
      else readDecimal body
    size.map fun x => if sign < 0 then x.neg else x

/-- Whether a year has a day more than the others. -/
def isLeap (year : Nat) : Bool := year % 4 = 0 && (year % 100 ≠ 0 || year % 400 = 0)

/-- How many days a month has. -/
def daysIn (year month : Nat) : Nat :=
  if month = 2 then if isLeap year then 29 else 28
  else if month ∈ [4, 6, 9, 11] then 30
  else 31

/-- The natural number of decimal digits. -/
def natOf (digits : Text) : Nat := digits.foldl (fun n c => 10 * n + (c.toNat - 48)) 0

/-- A day, if there is such a day. -/
def checkDate (year month day : Nat) : Except ScalarError Date :=
  if year = 0 || 9999 < year then .error (.outOfRange (.year year))
  else if month = 0 || 12 < month then .error (.outOfRange .month)
  else if day = 0 || daysIn year month < day then .error (.outOfRange .day)
  else .ok ⟨year, month, day⟩

/-- The minutes ahead of universal time. -/
def checkZone : Option (Char × Text × Text) → Except ScalarError (Option Int)
  | none => .ok none
  | some (sign, hours, minutes) =>
    let size : Int := (natOf hours * 60 + natOf minutes : Nat)
    let offset := if sign = '-' then -size else size
    if 1440 ≤ size then .error (.outOfRange (.offset offset)) else .ok (some offset)

/-- **The point in time of a text.** -/
def readMoment (t : Text) : Except ScalarError Scalar :=
  match readTime t with
  | none => .error .notATime
  | some time =>
    match time.clock with
    | none => (checkDate (natOf time.year) (natOf time.month) (natOf time.day)).map .date
    | some (hour, minute, second, fraction) => do
      let offset ← checkZone time.zone
      let date ← checkDate (natOf time.year) (natOf time.month) (natOf time.day)
      if 23 < natOf hour then .error (.outOfRange .hour)
      else if 59 < natOf minute then .error (.outOfRange .minute)
      else if 59 < natOf second then .error (.outOfRange .second)
      else
        let micro := fraction.take 6
        let micro := natOf (micro ++ List.replicate (6 - micro.length) '0')
        .ok (.moment ⟨date, natOf hour, natOf minute, natOf second, micro, offset⟩)

/-- The truth value of a word. -/
def readBool (t : Text) : Except ScalarError Bool :=
  let word := t.map Char.toLower
  if word ∈ (["yes", "true", "on"] : List Text) then .ok true
  else if word ∈ (["no", "false", "off"] : List Text) then .ok false
  else .error (.notATruth word)

/-- **What a scalar of a kind stands for**; nothing for the kinds that are
not scalars' or not known. -/
def Tag.read (tag : Tag) (t : Text) : Option (Except ScalarError Scalar) :=
  match tag with
  | null => some (.ok .null)
  | bool => some ((readBool t).map .bool)
  | int => some ((readInt t).map .int)
  | float => some ((readFloat t).map .float)
  | timestamp => some (readMoment t)
  | text => some (.ok (.text t))
  | _ => none

end EditBlocks.Yaml
