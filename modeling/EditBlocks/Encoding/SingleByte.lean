import EditBlocks.Encoding.Error

/-!
# One byte for a character

Encodings in which the byte is the code of the character: Latin-1 has all 256
of them, ASCII the first 128. So all bytes are text in Latin-1, and the two
are written by one function with a bound.
-/

namespace EditBlocks.SingleByte

/-- The text of bytes that are characters' codes. -/
def decodeLatin1 (bytes : List UInt8) : Text := bytes.map fun b => Char.ofNat b.toNat

/-- **The text of ASCII bytes**; the number is the position of the first
byte. -/
def decodeAscii (position : Nat) : List UInt8 → Except DecodeError Text
  | [] => .ok []
  | b :: rest =>
    if b.toNat < 128 then (decodeAscii (position + 1) rest).map (Char.ofNat b.toNat :: ·)
    else .error ⟨"ascii", .notAscii, position, [b]⟩

/-- **The bytes of a text** whose characters' codes are below a given size;
the number is the position of the first character. -/
def encode (codec : Text) (size position : Nat) : Text → Except EncodeError (List UInt8)
  | [] => .ok []
  | c :: t =>
    if c.toNat < size then (encode codec size (position + 1) t).map (UInt8.ofNat c.toNat :: ·)
    else .error ⟨codec, size, position, c :: t.takeWhile fun c => size ≤ c.toNat⟩

end EditBlocks.SingleByte
