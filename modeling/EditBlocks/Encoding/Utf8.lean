import EditBlocks.Encoding.Error

/-!
# UTF-8

A character takes one to four bytes. The first byte tells how many follow and
which part of the code it carries; of the bytes that follow, the first may be
confined further, so that no character has two forms and no form stands for a
surrogate or for a code beyond the last.

Bytes are read one at a time. Where they stand for nothing, the bytes of the
character at hand are reported, up to the one that does not fit. What is owed
in the middle of a character is the state of the reader (`Owed`): how many
bytes are yet to come, between which bounds the next one must be, and the
code so far.
-/

namespace EditBlocks.Utf8

/-- The name of the encoding. -/
def codec : Text := "utf-8"

/-! ## Writing

A character's code is cut into six bits for each byte that follows, and what
is left for the first. -/

/-- A byte that continues a character, with six bits of its code. -/
def continuation (bits : Nat) : UInt8 := UInt8.ofNat (0x80 + bits % 64)

/-- **The bytes of a character.** -/
def encodeChar (c : Char) : List UInt8 :=
  let n := c.toNat
  if n < 0x80 then [UInt8.ofNat n]
  else if n < 0x800 then [UInt8.ofNat (0xc0 + n / 64), continuation n]
  else if n < 0x10000 then
    [UInt8.ofNat (0xe0 + n / 4096), continuation (n / 64), continuation n]
  else
    [UInt8.ofNat (0xf0 + n / 262144), continuation (n / 4096), continuation (n / 64),
      continuation n]

/-- **The bytes of a text.** -/
def encode (t : Text) : List UInt8 := t.flatMap encodeChar

/-! ## Reading

The first byte settles what is owed, and each byte after it pays a part or is
a fault. -/

/-- What the first byte of a character asks for: so many bytes more, the part
of the code it carries, and the least and the greatest byte that may come
next. -/
structure Owed where
  /-- How many bytes are still to come. -/
  count : Nat
  /-- The code as far as it is known. -/
  code : Nat
  /-- The least byte that may come next. -/
  least : Nat
  /-- The greatest byte that may come next. -/
  greatest : Nat
deriving DecidableEq

/-- What a first byte beyond ASCII asks for, if it can be one. -/
def owed? (b : Nat) : Option Owed :=
  if 0xc2 ≤ b ∧ b ≤ 0xdf then some ⟨1, b - 0xc0, 0x80, 0xbf⟩
  else if b = 0xe0 then some ⟨2, 0, 0xa0, 0xbf⟩
  else if b = 0xed then some ⟨2, 13, 0x80, 0x9f⟩
  else if 0xe1 ≤ b ∧ b ≤ 0xef then some ⟨2, b - 0xe0, 0x80, 0xbf⟩
  else if b = 0xf0 then some ⟨3, 0, 0x90, 0xbf⟩
  else if 0xf1 ≤ b ∧ b ≤ 0xf3 then some ⟨3, b - 0xf0, 0x80, 0xbf⟩
  else if b = 0xf4 then some ⟨3, 4, 0x80, 0x8f⟩
  else none

/-- **Where reading stands between two bytes**: between characters, or inside
one that began at a position with the bytes so far. -/
inductive State
  | between
  | inside (start : Nat) (taken : List UInt8) (owed : Owed)
deriving DecidableEq

/-- **The text of bytes**, read from a state on; the number is the position
of the first byte. -/
def decodeFrom (position : Nat) : State → List UInt8 → Except DecodeError Text
  | .between, [] => .ok []
  | .inside start taken _, [] => .error ⟨codec, .unexpectedEnd, start, taken⟩
  | .between, b :: rest =>
    if b.toNat < 0x80 then
      (decodeFrom (position + 1) .between rest).map (Char.ofNat b.toNat :: ·)
    else match owed? b.toNat with
      | none => .error ⟨codec, .invalidStart, position, [b]⟩
      | some owed => decodeFrom (position + 1) (.inside position [b] owed) rest
  | .inside start taken owed, b :: rest =>
    if owed.least ≤ b.toNat ∧ b.toNat ≤ owed.greatest then
      let code := owed.code * 64 + (b.toNat - 0x80)
      if owed.count ≤ 1 then
        (decodeFrom (position + 1) .between rest).map (Char.ofNat code :: ·)
      else
        decodeFrom (position + 1)
          (.inside start (taken ++ [b]) ⟨owed.count - 1, code, 0x80, 0xbf⟩) rest
    else .error ⟨codec, .invalidContinuation, start, taken⟩

/-- **The text of bytes.** -/
def decode (bytes : List UInt8) : Except DecodeError Text := decodeFrom 0 .between bytes

/-! ## The mark at the beginning

UTF-8 has one order of bytes, so the mark says nothing but that the text is
UTF-8. It is written once and left out when it is read. -/

/-- The bytes of the mark that can stand before a text. -/
def mark : List UInt8 := [0xef, 0xbb, 0xbf]

/-- The bytes of a text after a mark. -/
def encodeMarked (t : Text) : List UInt8 := mark ++ encode t

/-- **The text of bytes that may begin with a mark.** A mark that is cut
short is one too. Positions count from the end of the mark. -/
def decodeMarked (bytes : List UInt8) : Except DecodeError Text :=
  if bytes.length < mark.length ∧ bytes.isPrefixOf mark then .ok []
  else if mark.isPrefixOf bytes then decode (bytes.drop mark.length)
  else decode bytes

end EditBlocks.Utf8
