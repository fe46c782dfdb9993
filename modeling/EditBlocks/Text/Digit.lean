import EditBlocks.Text.Basic

/-!
# Decimal digits

The decimal digits of all the scripts of Unicode 14. The ten digits of a
script follow one another from its zero on, so a script is known by its zero,
and the table is one of zeros.
-/

namespace EditBlocks

/-- The zeros of the scripts, in order. -/
def scriptZeros : List Nat :=
  [48, 1632, 1776, 1984, 2406, 2534, 2662, 2790, 2918, 3046, 3174, 3302, 3430, 3558, 3664,
   3792, 3872, 4160, 4240, 6112, 6160, 6470, 6608, 6784, 6800, 6992, 7088, 7232, 7248, 42528,
   43216, 43264, 43472, 43504, 43600, 44016, 65296, 66720, 68912, 69734, 69872, 69942, 70096,
   70384, 70736, 70864, 71248, 71360, 71472, 71904, 72016, 72784, 73040, 73120, 92768, 92864,
   93008, 120782, 120792, 120802, 120812, 120822, 123200, 123632, 125264, 130032]

/-- **The number that a decimal digit stands for.** -/
def decimalDigit? (c : Char) : Option Nat :=
  (scriptZeros.find? fun start => start ≤ c.toNat && c.toNat < start + 10).map fun start =>
    c.toNat - start

/-- Whether a character is a decimal digit of some script. -/
def isDecimalDigit (c : Char) : Bool := (decimalDigit? c).isSome

namespace Text

/-- The text with the digits of ASCII in place of all others. -/
def withPlainDigits (t : Text) : Text :=
  t.map fun c => match decimalDigit? c with
    | some d => Char.ofNat (48 + d)
    | none => c

end Text

/-- The digit of a number below ten is the number. -/
example : ∀ d < 10, decimalDigit? (Char.ofNat (48 + d)) = some d := by decide

example : decimalDigit? '٤' = some 4 ∧ decimalDigit? 'a' = none := by decide

end EditBlocks
