import EditBlocks.Number.Binary64

/-!
# The shortest decimal of a number

A finite number is written with the fewest significant digits that read back
to it, and of those the nearest to it. Digit counts are tried from one up; on
each decimal grid only the two neighbours of the number come into question.
Seventeen digits always suffice.

The layout: positional where the decimal point stands within or near the
digits, with at least one digit on each side of the point; otherwise one
digit before the point and an exponent of at least two digits.
-/

namespace EditBlocks.Binary64

/-- The place of the decimal point of a positive fraction: the least `k` with
the fraction below `10 ^ k`. -/
def decimalPoint (num den : Nat) : Int :=
  if den ≤ num then (Nat.toDigits 10 (num / den)).length
  else 1 - (Nat.toDigits 10 ((den - 1) / num)).length

/-- A fraction times a power of ten, as a fraction. -/
def scaleTen (num den : Nat) : Int → Nat × Nat
  | .ofNat e => (num * Nat.pow 10 e, den)
  | .negSucc e => (num, den * Nat.pow 10 (e + 1))

/-- **The decimal that reads back**, from a given count of digits on: an
integer and the power of ten it is multiplied by. -/
def search (num den : Nat) (target : Binary64) (point : Int) : (count tries : Nat) → Nat × Int
  | count, 0 => let (n, d) := scaleTen num den (count - point); (roundHalfEven n d, point - count)
  | count, tries + 1 =>
    let exponent := point - count
    let (n, d) := scaleTen num den (-exponent)
    let nearest := roundHalfEven n d
    let low := n / d
    let other := if nearest = low then low + 1 else low
    if ofDecimal false nearest exponent = target then (nearest, exponent)
    else if ofDecimal false other exponent = target then (other, exponent)
    else search num den target point (count + 1) tries

/-- The significant digits of a finite number without trailing zeros, and the
place of its decimal point. -/
def shortestDigits (mantissa : Nat) (exponent : Int) : Text × Int :=
  let (num, den) := ratio mantissa exponent
  let (digits, power) :=
    search num den (finite false mantissa exponent) (decimalPoint num den) 1 17
  let written := Nat.toDigits 10 digits
  let kept := (written.reverse.dropWhile (· = '0')).reverse
  (kept, power + written.length)

/-- **The layout of a number's digits** with the decimal point at a given
place. -/
def layout (digits : Text) (point : Int) : Text :=
  if -4 < point ∧ point ≤ 16 then
    match point with
    | .ofNat 0 => '0' :: '.' :: digits
    | .ofNat k =>
      let whole := digits.take k ++ List.replicate (k - digits.length) '0'
      whole ++ '.' :: (if digits.length ≤ k then ['0'] else digits.drop k)
    | .negSucc k => '0' :: '.' :: (List.replicate (k + 1) '0' ++ digits)
  else
    let power := point - 1
    let shown := Nat.toDigits 10 power.natAbs
    let mark : Text := if power < 0 then "e-" else "e+"
    digits.take 1 ++ (if digits.length ≤ 1 then [] else '.' :: digits.drop 1) ++ mark
      ++ List.replicate (2 - shown.length) '0' ++ shown

/-- **The text of a number**, with the words for what is not finite. -/
def toText : Binary64 → Text
  | nan => "nan"
  | infinite negative => if negative then "-inf" else "inf"
  | finite negative mantissa exponent =>
    let body : Text :=
      if mantissa = 0 then "0.0"
      else
        let (digits, point) := shortestDigits mantissa exponent
        layout digits point
    if negative then '-' :: body else body

end EditBlocks.Binary64
