import EditBlocks.Text.Hex
import EditBlocks.Text.Printable

/-!
# Quoted texts

A text shown inside a message stands between quotes on one line. The quotes
are single ones, unless the text holds a single quote and no double one. The
quote itself and the backslash are escaped by a backslash; tab, line feed and
carriage return have short escapes; every other character that is not
printable is written by its code in hexadecimal, with two, four or eight
digits as it needs.
-/

namespace EditBlocks.Text

/-- The quote that a text is shown in. -/
def quoteFor (t : Text) : Char := if '\'' ∈ t ∧ '"' ∉ t then '"' else '\''

/-- One character of a text between the given quotes. -/
def escapeChar (quote c : Char) : Text :=
  if c = quote ∨ c = '\\' then ['\\', c]
  else if c = '\t' then "\\t"
  else if c = '\n' then "\\n"
  else if c = '\r' then "\\r"
  else if isPrintable c then [c]
  else if c.toNat < 0x100 then "\\x" ++ hex 2 c.toNat
  else if c.toNat < 0x10000 then "\\u" ++ hex 4 c.toNat
  else "\\U" ++ hex 8 c.toNat

/-- **A text between quotes**, on one line of printable characters. -/
def quoted (t : Text) : Text :=
  quoteFor t :: t.flatMap (escapeChar (quoteFor t)) ++ [quoteFor t]

end EditBlocks.Text
