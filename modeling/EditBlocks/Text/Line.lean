import EditBlocks.Text.Basic

/-!
# Lines

A line runs up to and including its line boundary. There are ten boundary
characters, and a carriage return with the line feed after it is one
boundary. Only the last line of a text may lack one.

`Text.lines` keeps the boundaries, so the lines of a text, put together, are
the text (`Text.flatten_lines`), and no line is empty
(`Text.ne_nil_of_mem_lines`).
-/

namespace EditBlocks

/-- Whether a character ends a line: line feed, carriage return, vertical
tab, form feed, the file, group and record separators, next line, and the
line and paragraph separators of Unicode. -/
def isLineBreak (c : Char) : Bool :=
  (10 ≤ c.toNat && c.toNat ≤ 13) || (28 ≤ c.toNat && c.toNat ≤ 30) || c.toNat = 0x85
    || c.toNat = 0x2028 || c.toNat = 0x2029

namespace Text

/-- **Whether a line ends after a character**, seen with the text that
follows it: a carriage return directly before a line feed leaves the end to
it. -/
def endsLine (c : Char) (rest : Text) : Bool :=
  isLineBreak c && !(c == '\r' && rest.head? == some '\n')

/-- A character put in front of a list of lines joins the first of them. -/
def consLine (c : Char) : List Text → List Text
  | [] => [[c]]
  | line :: rest => (c :: line) :: rest

/-- **The lines of a text, each with its boundary.** -/
def lines : Text → List Text
  | [] => []
  | c :: t => if endsLine c t then [c] :: lines t else consLine c (lines t)

/-- The text of a line without its boundary. -/
def lineContent (line : Text) : Text := line.takeWhile fun c => !isLineBreak c

@[simp] theorem lines_nil : lines [] = [] := rfl

@[simp] theorem flatten_consLine (c : Char) (ls : List Text) :
    (consLine c ls).flatten = c :: ls.flatten := by
  cases ls <;> simp [consLine]

/-- **The lines of a text, put together, are the text.** -/
@[simp] theorem flatten_lines (t : Text) : (lines t).flatten = t := by
  induction t with
  | nil => rfl
  | cons c t ih => by_cases h : endsLine c t = true <;> simp [lines, h, ih]

/-- A line that a character joined is not empty, nor are the others. -/
theorem ne_nil_of_mem_consLine {c : Char} {ls : List Text} (h : ∀ l ∈ ls, l ≠ []) :
    ∀ l ∈ consLine c ls, l ≠ [] := by
  cases ls <;> simp_all [consLine]

theorem ne_nil_of_mem_lines (t : Text) : ∀ line ∈ lines t, line ≠ [] := by
  induction t with
  | nil => simp
  | cons c t ih =>
    by_cases h : endsLine c t = true
    · simpa [lines, h] using ih
    · simpa [lines, h] using ne_nil_of_mem_consLine ih

end Text

end EditBlocks
