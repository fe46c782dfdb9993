import EditBlocks.Text.Basic

/-!
# Blank characters

The white space of texts: the control characters that move the carriage or
separate records, and the space characters of Unicode. Twenty-nine characters
in all. Trimming removes them at the ends of a text, and a text of nothing
else is blank.

All ten characters that end a line are among them, so trimming a line takes
its boundary away as well.
-/

namespace EditBlocks

/-- Whether a character is white space. -/
def isBlankChar (c : Char) : Bool :=
  (9 ≤ c.toNat && c.toNat ≤ 13) || (28 ≤ c.toNat && c.toNat ≤ 32) || c.toNat = 0x85
    || c.toNat = 0xa0
    || c.toNat = 0x1680 || (0x2000 ≤ c.toNat && c.toNat ≤ 0x200a) || c.toNat = 0x2028
    || c.toNat = 0x2029 || c.toNat = 0x202f || c.toNat = 0x205f || c.toNat = 0x3000

namespace Text

/-- A text of white space only. The empty text is blank. -/
def isBlank (t : Text) : Bool := t.all isBlankChar

/-- The text without the white space it ends with. -/
def trimEnd : Text → Text
  | [] => []
  | c :: t => if isBlank (c :: t) then [] else c :: trimEnd t

/-- The text without the white space at its two ends. -/
def trim (t : Text) : Text := (trimEnd t).dropWhile isBlankChar

@[simp] theorem isBlank_nil : isBlank [] = true := rfl

@[simp] theorem trimEnd_nil : trimEnd [] = [] := rfl

/-- **Trimming a text empties it exactly when the text is blank.** -/
theorem trimEnd_eq_nil_iff (t : Text) : trimEnd t = [] ↔ isBlank t = true := by
  cases t with
  | nil => simp
  | cons c t => by_cases h : isBlank (c :: t) = true <;> simp [trimEnd, h]

end Text

end EditBlocks
