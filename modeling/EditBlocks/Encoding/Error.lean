import EditBlocks.Text.Quoted

/-!
# Why text and bytes do not match

Bytes that an encoding gives no text for, and text that it gives no bytes
for. A fault names the encoding, the place, and the bytes or characters
there.

Both are told in the words that the codecs of the system have for them. A
place is a number of bytes or of characters from the start, and a run of
several that are wrong together is told by its first and its last.
-/

namespace EditBlocks

/-- What can be wrong with bytes. -/
inductive ByteFault
  | invalidStart
  | invalidContinuation
  | unexpectedEnd
  | notAscii
  | truncated
  | illegalSurrogate
  | illegalEncoding
deriving DecidableEq

/-- The words for what is wrong with bytes. -/
def ByteFault.description : ByteFault → Text
  | invalidStart => "invalid start byte"
  | invalidContinuation => "invalid continuation byte"
  | unexpectedEnd => "unexpected end of data"
  | notAscii => "ordinal not in range(128)"
  | truncated => "truncated data"
  | illegalSurrogate => "illegal UTF-16 surrogate"
  | illegalEncoding => "illegal encoding"

/-- **Bytes that stand for no text.** -/
structure DecodeError where
  /-- The name of the encoding. -/
  codec : Text
  /-- What is wrong. -/
  fault : ByteFault
  /-- Where the bytes begin. -/
  position : Nat
  /-- The bytes that are wrong. -/
  bytes : List UInt8
deriving DecidableEq

/-- The message of bytes that stand for no text. -/
def DecodeError.message (e : DecodeError) : Text :=
  let place : Text := match e.bytes with
    | [b] => "byte 0x" ++ Text.hex 2 b.toNat ++ " in position " ++ Text.ofNat e.position
    | bytes =>
      "bytes in position " ++ Text.ofNat e.position ++ "-"
        ++ Text.ofNat (e.position + bytes.length - 1)
  "'" ++ e.codec ++ "' codec can't decode " ++ place ++ ": " ++ e.fault.description

/-- **Characters that an encoding has no bytes for.** -/
structure EncodeError where
  /-- The name of the encoding. -/
  codec : Text
  /-- The number of characters that the encoding has. -/
  size : Nat
  /-- Where the characters begin. -/
  position : Nat
  /-- The characters that cannot be written, as many as stand together. -/
  characters : Text
deriving DecidableEq

/-- A character by its code. -/
def codeOf (c : Char) : Text :=
  if c.toNat < 0x100 then "\\x" ++ Text.hex 2 c.toNat
  else if c.toNat < 0x10000 then "\\u" ++ Text.hex 4 c.toNat
  else "\\U" ++ Text.hex 8 c.toNat

/-- The message of characters that cannot be written. -/
def EncodeError.message (e : EncodeError) : Text :=
  let place : Text := match e.characters with
    | [c] => "character '" ++ codeOf c ++ "' in position " ++ Text.ofNat e.position
    | characters =>
      "characters in position " ++ Text.ofNat e.position ++ "-"
        ++ Text.ofNat (e.position + characters.length - 1)
  "'" ++ e.codec ++ "' codec can't encode " ++ place ++ ": ordinal not in range("
    ++ Text.ofNat e.size ++ ")"

end EditBlocks
