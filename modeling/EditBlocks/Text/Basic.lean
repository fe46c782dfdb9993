/-!
# Texts

A text is the list of its characters: every length and position of this
library counts characters, and every function on texts is a recursion on that
list. String literals stand for the list of their characters, so a message is
written as it reads.

Where bytes are meant they are a list of bytes, and an encoding leads from
the one to the other (`Encoding`).
-/

namespace EditBlocks

/-- **A text**, as the list of its characters. -/
abbrev Text := List Char

/-- A literal stands for the list of its characters. -/
instance : Coe String Text := ⟨String.toList⟩

/-- Texts are compared character by character. -/
instance Text.instLawfulBEq : LawfulBEq (List Char) := inferInstance

namespace Text

/-- The decimal digits of a natural number. -/
def ofNat (n : Nat) : Text := Nat.toDigits 10 n

/-- An integer in decimal, with a minus sign when it is negative. -/
def ofInt : Int → Text
  | .ofNat n => ofNat n
  | .negSucc n => '-' :: ofNat (n + 1)

/-- The parts of a text list, put one after the other with a separator
between them. -/
def join (separator : Text) : List Text → Text
  | [] => []
  | [t] => t
  | t :: rest => t ++ separator ++ join separator rest

/-- Whether a text begins with another. -/
def startsWith (t start : Text) : Bool := start.isPrefixOf t

/-- The parts of a text between the occurrences of a character; there is one
more part than occurrences. -/
def splitOn (separator : Char) : Text → List Text
  | [] => [[]]
  | c :: t =>
    if c = separator then [] :: splitOn separator t
    else match splitOn separator t with
      | [] => [[c]]
      | part :: parts => (c :: part) :: parts

end Text

/-- **Membership in a sorted list of closed ranges**, left to right; the
search stops at the first range that starts above the number. -/
def inRanges (n : Nat) : List (Nat × Nat) → Bool
  | [] => false
  | (low, high) :: rest => if n < low then false else n ≤ high || inRanges n rest

end EditBlocks
