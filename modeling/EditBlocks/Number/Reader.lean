import EditBlocks.Number.Binary64
import EditBlocks.Text.Blank
import EditBlocks.Text.Digit
import EditBlocks.Text.Hex

/-!
# Reading numbers

The integer and the number that a text as a whole stands for. White space
around it does not count, the digits may be of any script, and a sign may
come first. An integer may carry the mark of its base, and the two infinities
and what is not a number have words of their own.

A number is read as a sign, a natural number made of its digits, and a power
of ten, and only then rounded, once (`Binary64.ofDecimal`).
-/

namespace EditBlocks.Number

/-- The blanks of ASCII that separate words; those that separate records do
not count as such. -/
def isPlainBlank (c : Char) : Bool := c = ' ' || (9 ≤ c.toNat && c.toNat ≤ 13)

/-- A text without the blanks around it, in plain digits. -/
def trimmed (t : Text) : Text :=
  let isBlank (c : Char) : Bool := if c.toNat < 128 then isPlainBlank c else isBlankChar c
  Text.withPlainDigits ((t.dropWhile isBlank).reverse.dropWhile isBlank).reverse

/-- Whether a text has a sign for what is negative, and the text after its
sign. -/
def signOf : Text → Bool × Text
  | '-' :: t => (true, t)
  | '+' :: t => (false, t)
  | t => (false, t)

/-- The natural number of digits in a base; there is at least one. -/
def digitsIn? (base : Nat) (t : Text) : Option Nat :=
  if t = [] then none
  else t.foldlM (fun n c => do
    let d ← hexDigit? c
    if d < base then some (n * base + d) else none) 0

/-- The letter that marks a base. -/
def baseMark? (base : Nat) : Option Char :=
  if base = 2 then some 'b' else if base = 8 then some 'o' else if base = 16 then some 'x' else none

/-- A text without the mark of its base. -/
def dropMark (base : Nat) (t : Text) : Text :=
  match t with
  | '0' :: c :: digits => if baseMark? base = some c.toLower then digits else t
  | t => t

/-- **The integer of a text in a base.** -/
def integer? (base : Nat) (t : Text) : Option Int :=
  let (negative, body) := signOf (trimmed t)
  (digitsIn? base (dropMark base body)).map (Binary64.signed negative)

/-- The exponent of a decimal. -/
def exponent? : Text → Option Int
  | [] => some 0
  | e :: t =>
    if e.toLower = 'e' then
      let (negative, digits) := signOf t
      (digitsIn? 10 digits).map (Binary64.signed negative)
    else none

/-- The digits that a text begins with, and the text after them. -/
def spanDigits (t : Text) : Text × Text := (t.takeWhile Char.isDigit, t.dropWhile Char.isDigit)

/-- The number of a decimal without a sign: digits, a fraction, an
exponent. -/
def decimal? (negative : Bool) (t : Text) : Option Binary64 :=
  let (whole, rest) := spanDigits t
  let (fraction, rest) := match rest with
    | '.' :: rest => spanDigits rest
    | rest => ([], rest)
  match exponent? rest, digitsIn? 10 (whole ++ fraction) with
  | some e, some digits => some (.ofDecimal negative digits (e - fraction.length))
  | _, _ => none

/-- **The number of a text.** -/
def number? (t : Text) : Option Binary64 :=
  let (negative, body) := signOf (trimmed t)
  let word := body.map Char.toLower
  if word ∈ (["inf", "infinity"] : List Text) then some (.infinite negative)
  else if word = "nan" then some .nan
  else decimal? negative body

example :
    integer? 10 " -12 " = some (-12) ∧ integer? 8 "0o17" = some 15 ∧ integer? 10 "1 2" = none := by
  decide +kernel

end EditBlocks.Number
