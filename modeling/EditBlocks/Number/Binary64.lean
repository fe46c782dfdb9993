import EditBlocks.Text.Basic

/-!
# Double-precision numbers

The 64-bit binary numbers, by exact arithmetic on naturals: a finite one is a
sign, a mantissa below `2 ^ 53` and a power of two. The exponent is the
smallest that the format has for the value, so equal numbers are the same but
for the sign of zero. Every operation rounds the exact result to the nearest
number, and a tie to the even mantissa.

Numbers come up where a settings file or a configuration file holds one, and
a run only shows them and asks whether they are zero. Arithmetic is needed
for the numbers in sixties that YAML admits.
-/

namespace EditBlocks

/-- **A double-precision number.** -/
inductive Binary64
  /-- The number `± mantissa * 2 ^ exponent`. -/
  | finite (negative : Bool) (mantissa : Nat) (exponent : Int)
  /-- One of the two infinities. -/
  | infinite (negative : Bool)
  /-- Not a number. -/
  | nan
deriving DecidableEq

/-- The natural number nearest to a quotient; a tie goes to the even
neighbour. -/
def roundHalfEven (num den : Nat) : Nat :=
  let low := num / den
  let rest := 2 * (num % den)
  if rest < den then low
  else if den < rest then low + 1
  else if low % 2 = 0 then low
  else low + 1

namespace Binary64

/-- The least exponent of the format. -/
def minExponent : Int := -1074

/-- The greatest exponent of the format. -/
def maxExponent : Int := 971

/-- The least mantissa that has all of its 53 bits. -/
def leastFull : Nat := Nat.pow 2 52

/-- The number zero, of either sign. -/
def zero (negative : Bool) : Binary64 := finite negative 0 minExponent

/-- A fraction divided by a power of two, as a fraction. -/
def unscale (num den : Nat) : Int → Nat × Nat
  | .ofNat e => (num, den * Nat.pow 2 e)
  | .negSucc e => (num * Nat.pow 2 (e + 1), den)

/-- **The number nearest to a fraction.** The exponent is chosen so that the
mantissa has 53 bits, or fewer at the lower end of the range. -/
def ofRatio (negative : Bool) (num den : Nat) : Binary64 :=
  if num = 0 then zero negative
  else
    let guess : Int := (num.log2 : Int) - (den.log2 : Int) - 52
    let (n, d) := unscale num den guess
    let exponent := max (if n < d * leastFull then guess - 1 else guess) minExponent
    let (n, d) := unscale num den exponent
    let mantissa := roundHalfEven n d
    let (mantissa, exponent) :=
      if mantissa = 2 * leastFull then (leastFull, exponent + 1) else (mantissa, exponent)
    if exponent > maxExponent then infinite negative else finite negative mantissa exponent

/-- **The number nearest to a decimal**, `digits * 10 ^ exponent`. Far
outside the range the answer is known from the number of digits alone. -/
def ofDecimal (negative : Bool) (digits : Nat) (exponent : Int) : Binary64 :=
  let magnitude : Int := exponent + (Nat.toDigits 10 digits).length
  if digits = 0 then zero negative
  else if magnitude > 310 then infinite negative
  else if magnitude < -330 then zero negative
  else match exponent with
    | .ofNat e => ofRatio negative (digits * Nat.pow 10 e) 1
    | .negSucc e => ofRatio negative digits (Nat.pow 10 (e + 1))

/-- The number nearest to an integer. -/
def ofInt (n : Int) : Binary64 := ofRatio (n < 0) n.natAbs 1

/-- The size of a finite number as a fraction. -/
def ratio (mantissa : Nat) : Int → Nat × Nat
  | .ofNat e => (mantissa * Nat.pow 2 e, 1)
  | .negSucc e => (mantissa, Nat.pow 2 (e + 1))

/-- An integer from its sign and its size. -/
def signed (negative : Bool) (size : Nat) : Int := if negative then -(size : Int) else size

/-- Whether a number is zero, of either sign. -/
def isZero : Binary64 → Bool
  | finite _ mantissa _ => mantissa = 0
  | _ => false

/-- The integer that a number equals, if it is one. -/
def toInt? : Binary64 → Option Int
  | finite negative mantissa exponent =>
    let (num, den) := ratio mantissa exponent
    if num % den = 0 then some (signed negative (num / den)) else none
  | _ => none

/-- The number of the other sign. -/
def neg : Binary64 → Binary64
  | finite negative mantissa exponent => finite (!negative) mantissa exponent
  | infinite negative => infinite (!negative)
  | nan => nan

/-- The sum of two numbers, rounded. -/
def add : Binary64 → Binary64 → Binary64
  | finite s m e, finite s' m' e' =>
    let (n, d) := ratio m e
    let (n', d') := ratio m' e'
    let sum := signed s (n * d') + signed s' (n' * d)
    ofRatio (if sum = 0 then s && s' else sum < 0) sum.natAbs (d * d')
  | infinite s, infinite s' => if s = s' then infinite s else nan
  | infinite s, finite _ _ _ => infinite s
  | finite _ _ _, infinite s => infinite s
  | _, _ => nan

/-- The product of two numbers, rounded. -/
def mul : Binary64 → Binary64 → Binary64
  | finite s m e, finite s' m' e' =>
    let (n, d) := ratio m e
    let (n', d') := ratio m' e'
    ofRatio (s != s') (n * n') (d * d')
  | infinite s, infinite s' => infinite (s != s')
  | infinite s, finite s' m _ => if m = 0 then nan else infinite (s != s')
  | finite s m _, infinite s' => if m = 0 then nan else infinite (s != s')
  | _, _ => nan

/-- **Whether two numbers are equal.** Zeros of both signs are, and what is
not a number equals nothing. -/
def same : Binary64 → Binary64 → Bool
  | finite s m e, finite s' m' e' => (m = 0 && m' = 0) || (s = s' && m = m' && e = e')
  | infinite s, infinite s' => s = s'
  | _, _ => false

end Binary64

end EditBlocks
