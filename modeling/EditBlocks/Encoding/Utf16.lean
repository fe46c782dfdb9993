import EditBlocks.Encoding.Error

/-!
# UTF-16

A character takes one or two units of sixteen bits, and a unit two bytes in
either order. A character beyond the first 65536 is written as a high
surrogate and a low one.

Where the order is not fixed, a mark at the beginning gives it, and text
without one cannot be read here. What is written has the mark for the order
that is written, once for the whole file, so a text is not written part by
part.
-/

namespace EditBlocks.Utf16

/-- **The order of the two bytes of a unit.** -/
inductive Order
  /-- The low byte first. -/
  | little
  /-- The high byte first. -/
  | big
deriving DecidableEq

/-- The name of the encoding with an order. -/
def Order.codec : Order → Text
  | little => "utf-16-le"
  | big => "utf-16-be"

/-- The unit of two bytes. -/
def Order.unit (order : Order) (first second : UInt8) : Nat :=
  match order with
  | little => first.toNat + 256 * second.toNat
  | big => 256 * first.toNat + second.toNat

/-- The two bytes of a unit. -/
def Order.bytes (order : Order) (unit : Nat) : List UInt8 :=
  match order with
  | little => [UInt8.ofNat (unit % 256), UInt8.ofNat (unit / 256)]
  | big => [UInt8.ofNat (unit / 256), UInt8.ofNat (unit % 256)]

/-- The units of a character. -/
def unitsOf (c : Char) : List Nat :=
  let n := c.toNat
  if n < 0x10000 then [n]
  else [0xd800 + (n - 0x10000) / 0x400, 0xdc00 + (n - 0x10000) % 0x400]

/-- **The bytes of a text in an order.** -/
def encode (order : Order) (t : Text) : List UInt8 :=
  (t.flatMap unitsOf).flatMap order.bytes

/-- Whether a unit is the first of two. -/
def isHigh (unit : Nat) : Bool := 0xd800 ≤ unit && unit < 0xdc00

/-- Whether a unit is the second of two. -/
def isLow (unit : Nat) : Bool := 0xdc00 ≤ unit && unit < 0xe000

/-- The character of two units. -/
def pair (high low : Nat) : Char :=
  Char.ofNat (0x10000 + (high - 0xd800) * 0x400 + (low - 0xdc00))

/-- **The text of bytes in an order**; the number is the position of the
first byte. -/
def decodeFrom (order : Order) (position : Nat) : List UInt8 → Except DecodeError Text
  | [] => .ok []
  | [b] => .error ⟨order.codec, .truncated, position, [b]⟩
  | a :: b :: rest =>
    let unit := order.unit a b
    if isLow unit then .error ⟨order.codec, .illegalEncoding, position, [a, b]⟩
    else if isHigh unit then
      match rest with
      | [] => .error ⟨order.codec, .unexpectedEnd, position, [a, b]⟩
      | [c] => .error ⟨order.codec, .unexpectedEnd, position, [a, b, c]⟩
      | c :: d :: rest =>
        if isLow (order.unit c d) then
          (decodeFrom order (position + 4) rest).map (pair unit (order.unit c d) :: ·)
        else .error ⟨order.codec, .illegalSurrogate, position, [a, b]⟩
    else (decodeFrom order (position + 2) rest).map (Char.ofNat unit :: ·)

/-- The text of bytes in an order. -/
def decode (order : Order) (bytes : List UInt8) : Except DecodeError Text :=
  decodeFrom order 0 bytes

/-! ## The mark at the beginning

The mark is the character of no width, in one order or the other. In text of
a fixed order it is a character like any other. -/

/-- The mark's character, which is written first where the order is not
fixed. -/
def mark : Char := '\ufeff'

/-- The bytes of a text after a mark, the low bytes first. -/
def encodeMarked (t : Text) : List UInt8 := encode .little (mark :: t)

/-- **The text of bytes that begin with a mark**; nothing if they do not. No
bytes are the empty text. -/
def decodeMarked (bytes : List UInt8) : Except DecodeError (Option Text) :=
  match bytes with
  | 0xff :: 0xfe :: rest => (decodeFrom .little 2 rest).map some
  | 0xfe :: 0xff :: rest => (decodeFrom .big 2 rest).map some
  | bytes =>
    (decode .little bytes).map fun t => if t = [] then some [] else none

end EditBlocks.Utf16
